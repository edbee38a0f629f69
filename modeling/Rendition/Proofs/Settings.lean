import Mathlib.Data.List.Induction
import Mathlib.Data.List.Nodup
import Rendition.Catalog
import Rendition.Config
import Rendition.Proofs.Cadence
import Rendition.Proofs.Candidates

/-!
# Rendition.Proofs.Settings

What becomes of the members of a configuration. `settings` lists the options, each with its name,
its place among the options and the values that set it (`Denotes...`), stated without the readers. A
document is accepted with some options if and only if each of them reads so, what is left is kept
aside, and nothing makes them invalid (`ofMembers?_eq_some_iff`, `ofText_eq_ok_iff`).

An option is read by looking its name up, and what is kept aside is sorted into a map. Neither
depends on the order of the members as long as no two share a name (`lookup_eq_of_perm`,
`sortedMembers_eq_of_perm`), and the options do not depend on the other members at all
(`ofMembers?_of_perm`). So each member of an accepted document counts, as an option or as one kept
aside (`ofText_reads_every_member`).
-/

namespace Rendition

open Json Net Text

/-! ### Members by name -/

section Members

variable {α : Type} {members others : List (String × α)} {name : String}

/-- Where no two members share a name, a name is looked up to any member of it. -/
theorem lookup_eq_some_iff_mem (hkeys : (members.map (·.1)).Nodup) {value : α} :
    members.lookup name = some value ↔ (name, value) ∈ members := by
  constructor
  · intro h
    obtain ⟨front, rest, rfl, -⟩ := List.lookup_eq_some_iff.1 h
    simp
  · intro h
    obtain ⟨front, rest, rfl⟩ := List.append_of_mem h
    rw [List.map_append, List.map_cons] at hkeys
    have hfront : name ∉ front.map (·.1) := fun hmem =>
      List.disjoint_of_nodup_append hkeys hmem List.mem_cons_self
    refine List.lookup_eq_some_iff.2 ⟨front, rest, rfl, fun member hmember => ?_⟩
    rw [bne_iff_ne]
    rintro rfl
    exact hfront (List.mem_map_of_mem hmember)

theorem lookup_eq_of_perm (hkeys : (members.map (·.1)).Nodup) (hperm : others.Perm members)
    (name : String) : others.lookup name = members.lookup name :=
  Option.ext fun value => by
    rw [lookup_eq_some_iff_mem hkeys,
      lookup_eq_some_iff_mem ((hperm.map (·.1)).nodup_iff.2 hkeys), hperm.mem_iff]

theorem lookup_filter (keep : String → Bool) (hkeep : keep name = true) :
    (members.filter fun member => keep member.1).lookup name = members.lookup name := by
  induction members with
  | nil => rfl
  | cons member rest ih =>
      obtain ⟨key, value⟩ := member
      simp only [List.filter_cons, Catalog.lookup_cons_eq_ite, apply_ite (List.lookup name), ih]
      by_cases hname : name = key
      · simp [← hname, hkeep]
      · simp [hname]

theorem lookup_insertMember (other : String) (value : α) :
    (insertMember other value members).lookup name
      = if name = other then some value else members.lookup name := by
  fun_induction insertMember other value members with
  | case1 => rw [Catalog.lookup_cons_eq_ite]
  | case2 listed old rest hlt => rw [Catalog.lookup_cons_eq_ite]
  | case3 old rest hlt =>
      simp only [Catalog.lookup_cons_eq_ite]
      split <;> rfl
  | case4 listed old rest hlt hne ih =>
      simp only [Catalog.lookup_cons_eq_ite, ih]
      by_cases hname : name = listed
      · rw [if_pos hname, if_neg (by rintro rfl; exact hne hname), if_pos hname]
      · rw [if_neg hname, if_neg hname]

/-- Of members that share a name the last one counts. -/
theorem lookup_sortedMembers (members : List (String × α)) (name : String) :
    (sortedMembers members).lookup name = members.reverse.lookup name := by
  induction members using List.reverseRecOn with
  | nil => rfl
  | append_singleton members member ih =>
      have hlast : sortedMembers (members ++ [member])
          = insertMember member.1 member.2 (sortedMembers members) := by
        simp [sortedMembers]
      rw [hlast, lookup_insertMember, ih, List.reverse_append, List.reverse_singleton,
        List.singleton_append, Catalog.lookup_cons_eq_ite]

theorem Ascending.nodup_keys (h : Ascending members) : (members.map (·.1)).Nodup := by
  rw [ascending_iff] at h
  exact (List.pairwise_map.2 h).imp ne_of_lt

/-- Members in ascending order are a map: where all names have the same values, the lists are the
same. -/
theorem Ascending.ext (h : Ascending members) (hother : Ascending others)
    (hlookup : ∀ name, members.lookup name = others.lookup name) : members = others := by
  have hmem : ∀ member, member ∈ members ↔ member ∈ others := fun member => by
    rw [← lookup_eq_some_iff_mem h.nodup_keys, ← lookup_eq_some_iff_mem hother.nodup_keys, hlookup]
  have hperm := (List.perm_ext_iff_of_nodup h.nodup_keys.of_map hother.nodup_keys.of_map).2 hmem
  rw [ascending_iff] at h hother
  exact hperm.eq_of_pairwise (fun a b _ _ hab hba => absurd hab (lt_asymm hba)) h hother

theorem sortedMembers_eq_iff : sortedMembers members = others ↔
    Ascending others ∧ ∀ name, others.lookup name = members.reverse.lookup name := by
  constructor
  · rintro rfl
    exact ⟨ascending_sortedMembers members, lookup_sortedMembers members⟩
  · rintro ⟨hother, hlookup⟩
    refine (ascending_sortedMembers members).ext hother fun name => ?_
    rw [lookup_sortedMembers, hlookup]

theorem nodup_keys_reverse (hkeys : (members.map (·.1)).Nodup) :
    (members.reverse.map (·.1)).Nodup := by
  rwa [List.map_reverse, List.nodup_reverse]

/-- Where no two members share a name, sorting keeps them all. -/
theorem mem_sortedMembers (hkeys : (members.map (·.1)).Nodup) {member : String × α} :
    member ∈ sortedMembers members ↔ member ∈ members := by
  rw [← lookup_eq_some_iff_mem (ascending_sortedMembers members).nodup_keys,
    lookup_sortedMembers, lookup_eq_some_iff_mem (nodup_keys_reverse hkeys), List.mem_reverse]

theorem sortedMembers_eq_of_perm (hkeys : (members.map (·.1)).Nodup)
    (hperm : others.Perm members) : sortedMembers others = sortedMembers members := by
  have hreverse : members.reverse.Perm others.reverse :=
    (List.reverse_perm members).trans (hperm.symm.trans (List.reverse_perm others).symm)
  refine sortedMembers_eq_iff.2 ⟨ascending_sortedMembers members, fun name => ?_⟩
  rw [lookup_sortedMembers, lookup_eq_of_perm (nodup_keys_reverse hkeys) hreverse.symm]

end Members

namespace Config

/-! ### What the value of an option denotes -/

/-- A text denotes itself. -/
def DenotesText (v : Value) (s : String) : Prop :=
  v = .text s

/-- A truth value denotes itself. -/
def DenotesBoolean (v : Value) (b : Bool) : Prop :=
  v = .boolean b

/-- An integer that is not negative denotes a number. -/
def DenotesNumber (v : Value) (n : Nat) : Prop :=
  ∃ w : UInt64, v = .number (.natural w) ∧ w.toNat = n

/-- The text of an address denotes it. -/
def DenotesAddress (v : Value) (a : Address) : Prop :=
  ∃ s, v = .text s ∧ Address.parse? s = some a

/-- A text denotes itself, and a null that there is none. -/
def DenotesOptionalText (v : Value) : Option String → Prop
  | none => v = .null
  | some s => v = .text s

/-- The name of a mode in a document. -/
def modeName : CacheMode → String
  | .disk => "disk"
  | .store => "store"

/-- A mode is denoted by its name, which may also be that of the only member of an object, a
null. -/
def DenotesMode (v : Value) (mode : CacheMode) : Prop :=
  v = .text (modeName mode) ∨ v = .object [(modeName mode, .null)]

/-- An object of arrays of texts denotes the map of its lists, the last one for each name. -/
def DenotesLists (v : Value) (lists : List (String × List String)) : Prop :=
  ∃ entries : List (String × List String),
    v = .object (entries.map fun (name, texts) => (name, .array (texts.map .text))) ∧
    Ascending lists ∧ ∀ name, lists.lookup name = entries.reverse.lookup name

theorem readText_iff (v : Value) (s : String) : readText v = some s ↔ DenotesText v s := by
  cases v <;> simp [readText, DenotesText]

theorem readBoolean_iff (v : Value) (b : Bool) :
    readBoolean v = some b ↔ DenotesBoolean v b := by
  cases v <;> simp [readBoolean, DenotesBoolean]

theorem readWord_eq_some_iff {v : Value} {w : UInt64} :
    readWord v = some w ↔ v = .number (.natural w) := by
  fun_cases readWord v <;> simp_all [eq_comm]

theorem denotesNumber_iff {v : Value} {n : Nat} :
    DenotesNumber v n ↔ ∃ w, readWord v = some w ∧ w.toNat = n := by
  simp only [DenotesNumber, readWord_eq_some_iff]

theorem readWord_iff (v : Value) (w : UInt64) :
    readWord v = some w ↔ DenotesNumber v w.toNat := by
  simp [denotesNumber_iff, UInt64.toNat_inj]

theorem readPort_iff (v : Value) (p : UInt16) :
    readPort v = some p ↔ DenotesNumber v p.toNat := by
  simp only [denotesNumber_iff, readPort, Option.bind_eq_bind, Option.bind_eq_some_iff]
  refine exists_congr fun w => and_congr_right fun _ => ?_
  rw [Option.ite_none_right_eq_some, Option.some.injEq, ← UInt16.toNat_inj, UInt64.toNat_toUInt16]
  have := p.toNat_lt
  unfold UInt16.size
  omega

theorem readLevel_iff (v : Value) (l : UInt8) :
    readLevel v = some l ↔ DenotesNumber v l.toNat := by
  simp only [denotesNumber_iff, readLevel, Option.bind_eq_bind, Option.bind_eq_some_iff]
  refine exists_congr fun w => and_congr_right fun _ => ?_
  rw [Option.ite_none_right_eq_some, Option.some.injEq, ← UInt8.toNat_inj, UInt64.toNat_toUInt8]
  have := l.toNat_lt
  unfold UInt8.size
  omega

theorem readAddress_iff (v : Value) (a : Address) :
    readAddress v = some a ↔ DenotesAddress v a := by
  simp only [readAddress, Option.bind_eq_bind, Option.bind_eq_some_iff, readText_iff, DenotesText,
    DenotesAddress]

theorem readOptional_readText_iff (v : Value) (s : Option String) :
    readOptional readText v = some s ↔ DenotesOptionalText v s := by
  cases s <;> fun_cases readOptional readText v <;>
    simp_all [DenotesOptionalText, readText_iff, DenotesText]

theorem modeNamed?_eq_some_iff {name : String} {mode : CacheMode} :
    modeNamed? name = some mode ↔ name = modeName mode := by
  cases mode <;> fun_cases modeNamed? name <;> simp_all [modeName]

theorem readMode_iff (v : Value) (mode : CacheMode) :
    readMode v = some mode ↔ DenotesMode v mode := by
  fun_cases readMode v <;> simp_all [DenotesMode, modeNamed?_eq_some_iff]

/-- Items that are read one by one are those that are written so. -/
theorem mapM_eq_some_iff {α β : Type} {read : β → Option α} {write : α → β}
    (hread : ∀ v x, read v = some x ↔ v = write x) {vs : List β} {xs : List α} :
    vs.mapM read = some xs ↔ vs = xs.map write := by
  induction vs generalizing xs with
  | nil => cases xs <;> simp
  | cons v vs ih =>
      simp only [List.mapM_cons, Option.bind_eq_bind, Option.bind_eq_some_iff, Option.pure_def,
        Option.some.injEq, hread, ih]
      cases xs <;> grind

theorem readTexts_eq_some_iff {v : Value} {texts : List String} :
    readTexts v = some texts ↔ v = .array (texts.map .text) := by
  cases v <;> simp [readTexts, mapM_eq_some_iff readText_iff]

theorem readLists_iff (v : Value) (lists : List (String × List String)) :
    readLists v = some lists ↔ DenotesLists v lists := by
  have hread : ∀ (member : String × Value) (entry : String × List String),
      (do some (member.1, ← readTexts member.2)) = some entry ↔
        member = (entry.1, .array (entry.2.map .text)) := by
    rintro ⟨name, v⟩ ⟨other, texts⟩
    simp only [Option.bind_eq_bind, Option.bind_eq_some_iff, readTexts_eq_some_iff,
      Option.some.injEq, Prod.mk.injEq]
    grind
  cases v with
  | object members =>
      simp only [readLists, Option.bind_eq_bind, Option.bind_eq_some_iff, Option.some.injEq,
        sortedMembers_eq_iff, DenotesLists, Value.object.injEq]
      exact exists_congr fun entries => and_congr_left' (mapM_eq_some_iff hread)
  | _ => simp [readLists, DenotesLists]

/-! ### Options -/

/-- An option: its name, its place among the options and what the values that set it denote, which
is what is read from them. -/
structure Setting where
  name : String
  {α : Type}
  get : Config → α
  denotes : Value → α → Prop
  {read : Value → Option α}
  read_iff : ∀ v x, read v = some x ↔ denotes v x

/-- All options. -/
def settings : List Setting :=
  [⟨"img_root", (·.imageRoot), DenotesText, readText_iff⟩,
    ⟨"port", (·.port), (DenotesNumber · ·.toNat), readPort_iff⟩,
    ⟨"bind", (·.bind), DenotesAddress, readAddress_iff⟩,
    ⟨"log_level", (·.logLevel), (DenotesNumber · ·.toNat), readLevel_iff⟩,
    ⟨"log_file", (·.logFile), DenotesOptionalText, readOptional_readText_iff⟩,
    ⟨"cache_mode", (·.cacheMode), DenotesMode, readMode_iff⟩,
    ⟨"max_age", (·.maxAge), (DenotesNumber · ·.toNat), readWord_iff⟩,
    ⟨"not_found", (·.notFound), DenotesOptionalText, readOptional_readText_iff⟩,
    ⟨"store_host", (·.storeHost), DenotesText, readText_iff⟩,
    ⟨"store_port", (·.storePort), (DenotesNumber · ·.toNat), readPort_iff⟩,
    ⟨"ttl", (·.ttl), (DenotesNumber · ·.toNat), readWord_iff⟩,
    ⟨"invalidation_interval", (·.invalidationInterval), (DenotesNumber · ·.toNat), readWord_iff⟩,
    ⟨"watch", (·.watch), DenotesBoolean, readBoolean_iff⟩,
    ⟨"fallback_extensions", (·.fallbackExtensions), DenotesLists, readLists_iff⟩,
    ⟨"max_pixels", (·.maxPixels), (DenotesNumber · ·.toNat), readWord_iff⟩]

theorem name_settings : settings.map (·.name) = optionNames := rfl

theorem isOption_name {s : Setting} (hs : s ∈ settings) : isOption s.name = true := by
  rw [isOption, List.contains_iff_mem, ← name_settings]
  exact List.mem_map_of_mem hs

/-- What is kept aside is no option. -/
theorem get_ignored (c : Config) (ignored : Members) :
    ∀ s ∈ settings, s.get { c with ignored } = s.get c := by
  simp [settings]

variable {members others : Members} {c : Config}

/-- An option has the value that the members of its name denote, or its default if there are
none. -/
def Setting.Follows (s : Setting) (members : Members) (c : Config) : Prop :=
  (∀ v, (s.name, v) ∈ members → s.denotes v (s.get c)) ∧
    (s.name ∉ members.map (·.1) → s.get c = s.get default)

theorem Setting.follows_iff (s : Setting) (hkeys : (members.map (·.1)).Nodup) :
    s.Follows members c ↔
      option members s.name s.read (s.get default) = some (s.get c) := by
  unfold Setting.Follows option
  cases hlookup : members.lookup s.name with
  | none =>
      have hnone : ∀ v, (s.name, v) ∉ members := fun v hmem => by
        simpa using List.lookup_eq_none_iff.1 hlookup _ hmem
      simp [hnone, eq_comm]
  | some v =>
      have hmem : ∀ w, (s.name, w) ∈ members ↔ w = v := fun w => by
        rw [← lookup_eq_some_iff_mem hkeys, hlookup, Option.some.injEq, eq_comm]
      simp [hmem, s.read_iff]

/-! ### Documents -/

/-- The members that set an option. -/
def optionMembers (members : Members) : Members :=
  members.filter fun member => isOption member.1

/-- The members that set none. -/
def otherMembers (members : Members) : Members :=
  members.filter fun member => !isOption member.1

theorem setsOnce_iff : setsOnce members = true ↔ ((optionMembers members).map (·.1)).Nodup := by
  rw [setsOnce, decide_eq_true_eq, List.filter_map]
  rfl

theorem ofMembers?_eq_some_iff : ofMembers? members = some c ↔
    setsOnce members = true ∧
    (∀ s ∈ settings, option members s.name s.read (s.get default) = some (s.get c)) ∧
    c.ignored = sortedMembers (otherMembers members) := by
  have hbind : ∀ {α : Type} (x : Option α) (f : α → Option Config),
      (x >>= f) = some c ↔ ∃ a, x = some a ∧ f a = some c := fun _ _ => Option.bind_eq_some_iff
  unfold ofMembers?
  by_cases honce : setsOnce members = true
  · rw [if_neg (by simp [honce])]
    -- From the outside in, as the inner bindings would be gone through again at each outer one.
    simp only [honce, ↓hbind, Option.some.injEq, true_and, settings, List.forall_mem_cons]
    constructor
    · rintro ⟨_, h₁, _, h₂, _, h₃, _, h₄, _, h₅, _, h₆, _, h₇, _, h₈, _, h₉, _, h₁₀, _, h₁₁, _, h₁₂,
        _, h₁₃, _, h₁₄, _, h₁₅, rfl⟩
      exact ⟨⟨h₁, h₂, h₃, h₄, h₅, h₆, h₇, h₈, h₉, h₁₀, h₁₁, h₁₂, h₁₃, h₁₄, h₁₅, by simp⟩, rfl⟩
    · rintro ⟨⟨h₁, h₂, h₃, h₄, h₅, h₆, h₇, h₈, h₉, h₁₀, h₁₁, h₁₂, h₁₃, h₁₄, h₁₅, -⟩, hignored⟩
      exact ⟨_, h₁, _, h₂, _, h₃, _, h₄, _, h₅, _, h₆, _, h₇, _, h₈, _, h₉, _, h₁₀, _, h₁₁, _, h₁₂,
        _, h₁₃, _, h₁₄, _, h₁₅, by rw [← otherMembers, ← hignored]⟩
  · simp [honce]

/-- Other members that set the same options, in any order, change only what is kept aside. -/
theorem ofMembers?_of_perm (h : ofMembers? members = some c)
    (hoptions : (optionMembers others).Perm (optionMembers members)) :
    ofMembers? others = some { c with ignored := sortedMembers (otherMembers others) } := by
  obtain ⟨honce, hsettings, -⟩ := ofMembers?_eq_some_iff.1 h
  rw [setsOnce_iff] at honce
  have hlookup : ∀ s ∈ settings, others.lookup s.name = members.lookup s.name := fun s hs =>
    calc others.lookup s.name
        = (optionMembers others).lookup s.name := (lookup_filter isOption (isOption_name hs)).symm
      _ = (optionMembers members).lookup s.name := lookup_eq_of_perm honce hoptions s.name
      _ = members.lookup s.name := lookup_filter isOption (isOption_name hs)
  refine ofMembers?_eq_some_iff.2
    ⟨setsOnce_iff.2 ((hoptions.map (·.1)).nodup_iff.2 honce), fun s hs => ?_, rfl⟩
  rw [option, hlookup s hs]
  exact (hsettings s hs).trans (congrArg some (get_ignored c _ s hs).symm)

/-! ### Validation -/

theorem invalid?_eq_none_iff : c.invalid? = none ↔
    (∃ k ≤ 63, c.invalidationInterval.toNat = 2 ^ k) ∧ 0 < c.maxPixels.toNat ∧
    (c.cacheMode = .store → ∃ char ∈ c.storeHost.toList, Text.isBlank char = false) := by
  have hpixels : c.maxPixels = 0 ↔ c.maxPixels.toNat = 0 := UInt64.toNat_inj.symm
  rw [← Sampler.isPowerOfTwo_iff, Nat.pos_iff_ne_zero, ne_eq, ← hpixels]
  unfold invalid?
  split
  · simp_all
  · split
    · simp_all
    · simp_all [isBlankText]

theorem validate_eq_ok_iff {d : Config} : d.validate = .ok c ↔ d = c ∧ c.invalid? = none := by
  unfold validate
  split
  · next hvalid =>
      rw [Except.ok.injEq]
      exact ⟨fun h => ⟨h, h ▸ hvalid⟩, And.left⟩
  · next fault hfault =>
      simp only [reduceCtorEq, false_iff, not_and]
      rintro rfl hvalid
      rw [hvalid] at hfault
      cases hfault

theorem ofText_eq_ok_iff {text : String} : ofText text = .ok c ↔ ∃ members,
    Json.parse? text = some (.object members) ∧ ofMembers? members = some c ∧
      c.invalid? = none := by
  unfold ofText parse
  cases hparse : Json.parse? text with
  | none => simp [hparse]
  | some value =>
      cases value with
      | object members =>
          cases hmembers : ofMembers? members with
          | none => simp [hparse, ofValue?, hmembers]
          | some d => simp [hparse, ofValue?, hmembers, validate_eq_ok_iff]
      | _ => simp [hparse, ofValue?]

/-- Where no two members of an accepted document share a name, those that set no option are kept
aside with their values, and all others set theirs, which have their defaults otherwise. In another
order they make the same options, and with other members that set none only what is kept aside
changes. The interval is a power of two, there is a positive number of pixels, and a store has a
host. -/
theorem ofText_reads_every_member {text : String} {members : Members} {c : Config}
    (hparse : Json.parse? text = some (.object members)) (hkeys : (members.map (·.1)).Nodup)
    (haccepted : ofText text = .ok c) :
    (Ascending c.ignored ∧ ∀ name v,
      (name, v) ∈ c.ignored ↔ (name, v) ∈ members ∧ name ∉ optionNames) ∧
    (∀ s ∈ settings, s.Follows members c) ∧
    (∀ text' members', Json.parse? text' = some (.object members') →
      members'.Perm members → ofText text' = .ok c) ∧
    (∀ text' members', Json.parse? text' = some (.object members') →
      (optionMembers members').Perm (optionMembers members) →
        ∃ ignored, ofText text' = .ok { c with ignored }) ∧
    (∃ k ≤ 63, c.invalidationInterval.toNat = 2 ^ k) ∧ 0 < c.maxPixels.toNat ∧
    (c.cacheMode = .store → ∃ char ∈ c.storeHost.toList, Text.isBlank char = false) := by
  obtain ⟨found, hfound, hmembers, hvalid⟩ := ofText_eq_ok_iff.1 haccepted
  obtain rfl : members = found := by simpa [hparse] using hfound
  obtain ⟨-, hsettings, hignored⟩ := ofMembers?_eq_some_iff.1 hmembers
  have hother : ((otherMembers members).map (·.1)).Nodup :=
    hkeys.sublist (List.filter_sublist.map _)
  refine ⟨⟨hignored ▸ ascending_sortedMembers _, fun name v => ?_⟩,
    fun s hs => (s.follows_iff hkeys).2 (hsettings s hs),
    fun text' members' hparse' hperm => ofText_eq_ok_iff.2 ⟨members', hparse', ?_, hvalid⟩,
    fun text' members' hparse' hoptions => ⟨_, ofText_eq_ok_iff.2
      ⟨members', hparse', ofMembers?_of_perm hmembers hoptions, hvalid⟩⟩,
    invalid?_eq_none_iff.1 hvalid⟩
  · rw [hignored, mem_sortedMembers hother, otherMembers, List.mem_filter]
    simp [isOption]
  · rw [ofMembers?_of_perm hmembers (hperm.filter _), otherMembers,
      sortedMembers_eq_of_perm hother (hperm.filter _), ← hignored]

/-- A member that is named for what is kept aside is kept aside itself, before or behind an option,
and the option is the same without it. -/
theorem ofText_reads_every_member_ignored :
    let members : Members :=
      [("ttl", .number (.natural 5)), ("ignored", .object [("ttl", .number (.natural 1))])]
    let c : Config := { default with
      ttl := 5, ignored := [("ignored", .object [("ttl", .number (.natural 1))])] }
    Json.parse? "\x7b\"ttl\": 5, \"ignored\": \x7b\"ttl\": 1\x7d\x7d" = some (.object members) ∧
    ofText "\x7b\"ttl\": 5, \"ignored\": \x7b\"ttl\": 1\x7d\x7d" = .ok c ∧
    ofText "\x7b\"ignored\": \x7b\"ttl\": 1\x7d, \"ttl\": 5\x7d" = .ok c ∧
    ∃ ignored, ofText "\x7b\"ttl\": 5\x7d" = .ok { c with ignored } := by
  intro members c
  have hparse : Json.parse? "\x7b\"ttl\": 5, \"ignored\": \x7b\"ttl\": 1\x7d\x7d"
      = some (.object members) := by cbv
  have hmembers : ofMembers? members = some c :=
    ofMembers?_eq_some_iff.2 ⟨by decide, by
      simp [settings, option, Catalog.lookup_cons_eq_ite, members, readWord, c, default], by cbv⟩
  have haccepted : ofText "\x7b\"ttl\": 5, \"ignored\": \x7b\"ttl\": 1\x7d\x7d" = .ok c :=
    ofText_eq_ok_iff.2 ⟨members, hparse, hmembers, by decide⟩
  obtain ⟨-, -, hperm, hless, -⟩ := ofText_reads_every_member hparse (by decide) haccepted
  have hswapped : Json.parse? "\x7b\"ignored\": \x7b\"ttl\": 1\x7d, \"ttl\": 5\x7d"
      = some (.object members.reverse) := by cbv
  have hshort : Json.parse? "\x7b\"ttl\": 5\x7d"
      = some (.object [("ttl", .number (.natural 5))]) := by cbv
  have hoptions : optionMembers [("ttl", .number (.natural 5))] = optionMembers members := by
    simp only [members]
    cbv
  exact ⟨hparse, haccepted, hperm _ _ hswapped (List.reverse_perm members),
    hless _ _ hshort (hoptions ▸ List.Perm.refl _)⟩

end Config

end Rendition
