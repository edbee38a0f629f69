import Mathlib.Algebra.Group.Nat.Defs
import Rendition.Directive.Basic

/-!
# Rendition.Proofs.Grammar

The grammar of directive tokens, said without a scanner. A number is a run of digits that no further
digit follows (`OpensWith`), a distance is a letter with a number behind it (`OpensWithDistance`),
and a token spells a directive when it is put together from these (`Spells`).

Reading a token decides between three cases (`parse_cases`): it spells a directive, or it opens
with the letter of an operation and spells none, or it opens with another character or with none at
all. No token spells two directives (`Spells.unique`), so each case is also the condition for its
reading (`parse_iff_spells`). In the other direction every directive has a canonical token, and
reading that gives the directive back.
-/

namespace Rendition.Directive

open Text

/-! ### Numbers -/

/-- A text opens with a number: a run of digits, up to the first character that is none, spells it,
or spells a larger one where it is the largest word of 32 bits. -/
def OpensWith (s : List Char) (n : UInt32) (rest : List Char) : Prop :=
  ∃ digits, s = digits ++ rest ∧ digits ≠ [] ∧ (∀ c ∈ digits, isDigit c = true) ∧
    (∀ c ∈ rest.head?, isDigit c = false) ∧
    n.toNat = min (UInt32.size - 1) (digitsValue digits)

/-- Saturating after each digit saturates the number. -/
theorem fieldValue_eq (digits : List Char) :
    fieldValue digits = min fieldLimit (digitsValue digits) := by
  have hfold : ∀ (digits : List Char) (n : Nat),
      digits.foldl (fun n c => min fieldLimit (10 * n + digitValue c)) (min fieldLimit n)
        = min fieldLimit (digits.foldl (fun n c => 10 * n + digitValue c) n) := by
    intro digits
    induction digits with
    | nil => exact fun n => rfl
    | cons c rest ih =>
        intro n
        have hstep : min fieldLimit (10 * min fieldLimit n + digitValue c)
            = min fieldLimit (10 * n + digitValue c) := by omega
        rw [List.foldl_cons, List.foldl_cons, hstep, ih]
  have hzero := hfold digits 0
  rwa [Nat.min_zero] at hzero

theorem toNat_ofNat_fieldValue (digits : List Char) :
    (UInt32.ofNat (fieldValue digits)).toNat = min (UInt32.size - 1) (digitsValue digits) := by
  rw [fieldValue_eq, UInt32.toNat_ofNat_of_lt']
  · rfl
  · exact Nat.lt_of_le_of_lt (Nat.min_le_left _ _) (by decide)

theorem scanNumber_of_opensWith {s rest : List Char} {n : UInt32} (h : OpensWith s n rest) :
    scanNumber s = (some n, rest) := by
  obtain ⟨digits, rfl, hne, hdigits, hrest, hn⟩ := h
  -- Nothing is taken from or dropped off what follows the run.
  have htake : (digits ++ rest).takeWhile isDigit = digits := by
    rw [List.takeWhile_append_of_pos hdigits]
    cases rest with
    | nil => simp
    | cons c rest => simp [hrest c rfl]
  have hdrop : (digits ++ rest).dropWhile isDigit = rest := by
    rw [List.dropWhile_append_of_pos hdigits]
    cases rest with
    | nil => rfl
    | cons c rest => simp [hrest c rfl]
  have hvalue : UInt32.ofNat (fieldValue digits) = n :=
    UInt32.toNat_inj.1 ((toNat_ofNat_fieldValue digits).trans hn.symm)
  unfold scanNumber
  rw [htake, hdrop]
  cases digits with
  | nil => exact absurd rfl hne
  | cons c digits => rw [← hvalue]

theorem opensWith_of_scanNumber {s rest : List Char} {n : UInt32}
    (h : scanNumber s = (some n, rest)) : OpensWith s n rest := by
  unfold scanNumber at h
  split at h
  · cases h
  · next digits hne =>
      obtain ⟨hn, rfl⟩ := Prod.mk.inj h
      refine ⟨s.takeWhile isDigit, (List.takeWhile_append_dropWhile ..).symm, hne,
        List.all_eq_true.1 List.all_takeWhile, fun c hc => ?_, ?_⟩
      · have := List.head?_dropWhile_not isDigit s
        rw [Option.mem_def.1 hc] at this
        simpa using this
      · rw [← Option.some.inj hn, toNat_ofNat_fieldValue]

/-- A scan finds the number that a text opens with, or nothing, and then it takes nothing. -/
theorem scanNumber_cases (s : List Char) :
    (∃ n rest, scanNumber s = (some n, rest) ∧ OpensWith s n rest) ∨
      scanNumber s = (none, s) ∧ ∀ n rest, ¬ OpensWith s n rest := by
  rcases hscan : scanNumber s with ⟨_ | n, rest⟩
  · have hrest : rest = s := by
      unfold scanNumber at hscan
      split at hscan
      · exact (Prod.mk.inj hscan).2.symm
      · cases (Prod.mk.inj hscan).1
    refine Or.inr ⟨by rw [hrest], fun n rest' h => ?_⟩
    cases hscan.symm.trans (scanNumber_of_opensWith h)
  · exact Or.inl ⟨n, rest, rfl, opensWith_of_scanNumber hscan⟩

namespace OpensWith

variable {s rest rest' : List Char} {n n' : UInt32}

theorem unique (h : OpensWith s n rest) (h' : OpensWith s n' rest') : n = n' ∧ rest = rest' := by
  have hscan := (scanNumber_of_opensWith h).symm.trans (scanNumber_of_opensWith h')
  exact ⟨Option.some.inj (Prod.mk.inj hscan).1, (Prod.mk.inj hscan).2⟩

/-- No digit follows a number. -/
theorem not_isDigit (h : OpensWith s n rest) : ∀ c ∈ rest.head?, isDigit c = false :=
  h.choose_spec.2.2.2.1

theorem not_of_head (hs : ∀ c ∈ s.head?, isDigit c = false) : ¬ OpensWith s n rest := by
  rintro ⟨digits, rfl, hne, hdigits, -⟩
  obtain ⟨c, digits, rfl⟩ := List.exists_cons_of_ne_nil hne
  have hdigit := hdigits c List.mem_cons_self
  rw [hs c rfl] at hdigit
  cases hdigit

/-- A number is written with the digits of its value. -/
theorem of_toString (n : UInt32) (hrest : ∀ c ∈ rest.head?, isDigit c = false) :
    OpensWith ((toString n.toNat).toList ++ rest) n rest := by
  refine ⟨(toString n.toNat).toList, rfl, ?_, ?_, hrest, ?_⟩
  · simp [Nat.toDigits_ne_nil]
  · intro c hc
    rw [Nat.toString_eq_repr, Nat.toList_repr] at hc
    exact Nat.isDigit_of_mem_toDigits (by decide) (by decide) hc
  · have hvalue : digitsValue (Nat.toDigits 10 n.toNat) = n.toNat :=
      Nat.ofDigitChars_toDigits (by decide) (by decide)
    have hlt := n.toNat_lt
    rw [Nat.toString_eq_repr, Nat.toList_repr, hvalue]
    exact (Nat.min_eq_right (Nat.le_sub_one_of_lt hlt)).symm

end OpensWith

/-! ### Distances -/

/-- A text opens with a distance: a letter for its direction, and a number. -/
inductive OpensWithDistance : List Char → Int → List Char → Prop
  | plus {s rest : List Char} {n : UInt32} (h : OpensWith s n rest) :
      OpensWithDistance ('p' :: s) n.toNat rest
  | minus {s rest : List Char} {n : UInt32} (h : OpensWith s n rest) :
      OpensWithDistance ('m' :: s) (-n.toNat) rest

theorem toInt_signedField (negative : Bool) (n : UInt32) :
    (signedField negative n).toInt = if negative then -(n.toNat : Int) else n.toNat := by
  have hlt := n.toNat_lt
  unfold signedField
  rw [Int64.toInt_ofInt_of_le] <;> cases negative <;> simp <;> omega

theorem opensWithDistance_plus {body rest : List Char} {d : Int} :
    OpensWithDistance ('p' :: body) d rest ↔
      ∃ n, OpensWith body n rest ∧ d = (signedField false n).toInt := by
  constructor
  · intro h
    cases h with
    | @plus _ _ n h => exact ⟨n, h, (toInt_signedField false n).symm⟩
  · rintro ⟨n, h, rfl⟩
    rw [toInt_signedField]
    exact .plus h

theorem opensWithDistance_minus {body rest : List Char} {d : Int} :
    OpensWithDistance ('m' :: body) d rest ↔
      ∃ n, OpensWith body n rest ∧ d = (signedField true n).toInt := by
  constructor
  · intro h
    cases h with
    | @minus _ _ n h => exact ⟨n, h, (toInt_signedField true n).symm⟩
  · rintro ⟨n, h, rfl⟩
    rw [toInt_signedField]
    exact .minus h

/-- The two letters differ in the direction only. -/
private theorem scanDistance_of_letter {letter : Char} {negative : Bool} {body : List Char}
    (hopens : ∀ {d rest}, OpensWithDistance (letter :: body) d rest ↔
      ∃ n, OpensWith body n rest ∧ d = (signedField negative n).toInt)
    (hscan : scanDistance (letter :: body) = match scanNumber body with
      | (some n, rest) => (some (signedField negative n), rest)
      | (none, _) => (none, letter :: body)) :
    (∃ d rest, scanDistance (letter :: body) = (some d, rest) ∧
        OpensWithDistance (letter :: body) d.toInt rest) ∨
      scanDistance (letter :: body) = (none, letter :: body) ∧
        ∀ d rest, ¬ OpensWithDistance (letter :: body) d rest := by
  rcases scanNumber_cases body with ⟨n, rest, hnumber, hbody⟩ | ⟨hnumber, hbody⟩
  · exact Or.inl ⟨signedField negative n, rest, by rw [hscan, hnumber], hopens.2 ⟨n, hbody, rfl⟩⟩
  · refine Or.inr ⟨by rw [hscan, hnumber], fun d rest h => ?_⟩
    obtain ⟨n, hn, -⟩ := hopens.1 h
    exact hbody n rest hn

/-- Where no digit stands, a scan finds the distance that a text opens with, or nothing, and then it
takes nothing. -/
theorem scanDistance_cases {s : List Char} (hs : ∀ c ∈ s.head?, isDigit c = false) :
    (∃ d rest, scanDistance s = (some d, rest) ∧ OpensWithDistance s d.toInt rest) ∨
      scanDistance s = (none, s) ∧ ∀ d rest, ¬ OpensWithDistance s d rest := by
  have hnumber : scanNumber s = (none, s) := by
    rcases scanNumber_cases s with ⟨n, rest, -, hopens⟩ | ⟨hscan, -⟩
    · exact absurd hopens (OpensWith.not_of_head hs)
    · exact hscan
  by_cases hplus : ∃ body, s = 'p' :: body
  · obtain ⟨body, rfl⟩ := hplus
    exact scanDistance_of_letter opensWithDistance_plus rfl
  by_cases hminus : ∃ body, s = 'm' :: body
  · obtain ⟨body, rfl⟩ := hminus
    exact scanDistance_of_letter opensWithDistance_minus rfl
  refine Or.inr ⟨?_, fun d rest h => ?_⟩
  · unfold scanDistance
    split
    next letter negative digits hletter =>
      split at hletter
      · exact absurd ⟨_, rfl⟩ hplus
      · exact absurd ⟨_, rfl⟩ hminus
      · obtain ⟨-, rfl⟩ := Prod.mk.inj hletter
        rw [hnumber]
  · cases h with
    | plus => exact hplus ⟨_, rfl⟩
    | minus => exact hminus ⟨_, rfl⟩

theorem OpensWithDistance.unique {s rest rest' : List Char} {d d' : Int}
    (h : OpensWithDistance s d rest) (h' : OpensWithDistance s d' rest') :
    d = d' ∧ rest = rest' := by
  cases h with
  | plus h =>
      cases h' with
      | plus h' =>
          obtain ⟨rfl, rfl⟩ := h.unique h'
          exact ⟨rfl, rfl⟩
  | minus h =>
      cases h' with
      | minus h' =>
          obtain ⟨rfl, rfl⟩ := h.unique h'
          exact ⟨rfl, rfl⟩

theorem OpensWithDistance.not_isDigit {s rest : List Char} {d : Int}
    (h : OpensWithDistance s d rest) : ∀ c ∈ rest.head?, isDigit c = false := by
  cases h with
  | plus h | minus h => exact h.not_isDigit

/-- The distances behind the size of a crop: down and to the right, or down only, or none. A text
that opens with no distance has none, whatever stands further behind. -/
inductive Distances : List Char → Int → Int → Prop
  | none {s : List Char} (hnone : ∀ d rest, ¬ OpensWithDistance s d rest) : Distances s 0 0
  | down {s rest : List Char} {dy : Int} (hdy : OpensWithDistance s dy rest)
      (hnone : ∀ d rest', ¬ OpensWithDistance rest d rest') : Distances s dy 0
  | both {s between rest : List Char} {dy dx : Int} (hdy : OpensWithDistance s dy between)
      (hdx : OpensWithDistance between dx rest) : Distances s dy dx

theorem Distances.unique {s : List Char} {dy dx dy' dx' : Int} (h : Distances s dy dx)
    (h' : Distances s dy' dx') : dy = dy' ∧ dx = dx' := by
  cases h with
  | none hnone =>
      cases h' with
      | none => exact ⟨rfl, rfl⟩
      | down hdy | both hdy => exact absurd hdy (hnone _ _)
  | down hdy hnone =>
      cases h' with
      | none hnone' => exact absurd hdy (hnone' _ _)
      | down hdy' => exact ⟨(hdy.unique hdy').1, rfl⟩
      | both hdy' hdx' =>
          obtain ⟨-, rfl⟩ := hdy.unique hdy'
          exact absurd hdx' (hnone _ _)
  | both hdy hdx =>
      cases h' with
      | none hnone' => exact absurd hdy (hnone' _ _)
      | down hdy' hnone' =>
          obtain ⟨-, rfl⟩ := hdy.unique hdy'
          exact absurd hdx (hnone' _ _)
      | both hdy' hdx' =>
          obtain ⟨rfl, rfl⟩ := hdy.unique hdy'
          exact ⟨rfl, (hdx.unique hdx').1⟩

/-- Two scans, each where the one before stopped, find the distances. -/
theorem distances_of_scans {s rest rest' : List Char} {dy? dx? : Option Int64}
    (hs : ∀ c ∈ s.head?, isDigit c = false) (hdy : scanDistance s = (dy?, rest))
    (hdx : scanDistance rest = (dx?, rest')) :
    Distances s (dy?.getD 0).toInt (dx?.getD 0).toInt := by
  have hzero : ((none : Option Int64).getD 0).toInt = 0 := rfl
  rcases scanDistance_cases hs with ⟨dy, between, hscan, hopens⟩ | ⟨hscan, hnone⟩
  · obtain ⟨rfl, rfl⟩ := Prod.mk.inj (hscan.symm.trans hdy)
    rcases scanDistance_cases hopens.not_isDigit with ⟨dx, _, hscan', hopens'⟩ | ⟨hscan', hnone⟩
    · obtain ⟨rfl, rfl⟩ := Prod.mk.inj (hscan'.symm.trans hdx)
      exact .both hopens hopens'
    · obtain ⟨rfl, rfl⟩ := Prod.mk.inj (hscan'.symm.trans hdx)
      exact .down hopens hnone
  · obtain ⟨rfl, rfl⟩ := Prod.mk.inj (hscan.symm.trans hdy)
    obtain ⟨rfl, rfl⟩ := Prod.mk.inj (hscan.symm.trans hdx)
    exact .none hnone

/-! ### Tokens -/

/-- A token spells a directive: the letter of an operation and the numbers that it needs. What
stands behind these is of no account. -/
inductive Spells : List Char → Directive → Prop
  /-- A height alone is that of a square. -/
  | square {s rest : List Char} {height : UInt32} (hheight : OpensWith s height rest)
      (hnone : ∀ after width rest', rest = 'x' :: after → ¬ OpensWith after width rest') :
      Spells ('r' :: s) (.resize height height)
  | resize {s after rest : List Char} {height width : UInt32}
      (hheight : OpensWith s height ('x' :: after)) (hwidth : OpensWith after width rest) :
      Spells ('r' :: s) (.resize height width)
  | crop {s after rest : List Char} {height width : UInt32} {dy dx : Int64}
      (hheight : OpensWith s height ('x' :: after)) (hwidth : OpensWith after width rest)
      (hdistances : Distances rest dy.toInt dx.toInt) :
      Spells ('o' :: s) (.crop height width dy dx)
  | quality {s rest : List Char} {value : UInt32} (hvalue : OpensWith s value rest) :
      Spells ('q' :: s) (.quality value)

/-- A token spells one directive at most. -/
theorem Spells.unique {s : List Char} {d d' : Directive} (h : Spells s d) (h' : Spells s d') :
    d = d' := by
  cases h with
  | square hheight hnone =>
      cases h' with
      | square hheight' => rw [(hheight.unique hheight').1]
      | resize hheight' hwidth' =>
          obtain ⟨-, hrest⟩ := hheight.unique hheight'
          exact absurd hwidth' (hnone _ _ _ hrest)
  | resize hheight hwidth =>
      cases h' with
      | square hheight' hnone' =>
          obtain ⟨-, hrest⟩ := hheight'.unique hheight
          exact absurd hwidth (hnone' _ _ _ hrest)
      | resize hheight' hwidth' =>
          obtain ⟨rfl, hrest⟩ := hheight.unique hheight'
          obtain rfl := (List.cons.inj hrest).2
          rw [(hwidth.unique hwidth').1]
  | crop hheight hwidth hdistances =>
      cases h' with
      | crop hheight' hwidth' hdistances' =>
          obtain ⟨rfl, hrest⟩ := hheight.unique hheight'
          obtain rfl := (List.cons.inj hrest).2
          obtain ⟨rfl, rfl⟩ := hwidth.unique hwidth'
          obtain ⟨hdy, hdx⟩ := hdistances.unique hdistances'
          rw [Int64.toInt_inj.1 hdy, Int64.toInt_inj.1 hdx]
  | quality hvalue =>
      cases h' with
      | quality hvalue' => rw [(hvalue.unique hvalue').1]

/-! ### Readings -/

/-- A text opens with the letter of an operation. -/
def NamesOperation (s : List Char) : Prop :=
  ∃ letter ∈ ['r', 'o', 'q'], s.head? = some letter

theorem Spells.namesOperation {s : List Char} {d : Directive} (h : Spells s d) :
    NamesOperation s := by
  cases h with
  | square | resize => exact ⟨'r', by simp, rfl⟩
  | crop => exact ⟨'o', by simp, rfl⟩
  | quality => exact ⟨'q', by simp, rfl⟩

/-- What a reading says of a text: it spells the directive, or it names an operation and spells
nothing, or it names no operation. A reading that is no directive holds the text. -/
def Reading.Describes (s : List Char) : Reading → Prop
  | .known d => Spells s d
  | .malformed fault => fault.token.toList = s ∧ NamesOperation s ∧ ∀ d, ¬ Spells s d
  | .unknown token => token.toList = s ∧ ¬ NamesOperation s

theorem describes_parseResize {token : String} {body : List Char}
    (htoken : token.toList = 'r' :: body) : (parseResize token body).Describes ('r' :: body) := by
  unfold parseResize
  rcases scanNumber_cases body with ⟨height, rest, hscan, hheight⟩ | ⟨hscan, hnone⟩
  · rw [hscan]
    by_cases hx : ∃ after, rest = 'x' :: after
    · obtain ⟨after, rfl⟩ := hx
      rcases scanNumber_cases after with ⟨width, rest, hscan', hwidth⟩ | ⟨hscan', hnone⟩
      · simp only [hscan']
        exact .resize hheight hwidth
      · simp only [hscan']
        refine .square hheight fun after' width rest' heq => ?_
        obtain rfl := (List.cons.inj heq).2
        exact hnone width rest'
    · split
      · next heq => cases (Prod.mk.inj heq).1
      · next heq => exact absurd ⟨_, (Prod.mk.inj heq).2⟩ hx
      · next heq =>
          obtain rfl := Option.some.inj (Prod.mk.inj heq).1
          exact .square hheight fun after width rest' heq => absurd ⟨after, heq⟩ hx
  · rw [hscan]
    refine ⟨htoken, ⟨'r', by simp, rfl⟩, fun d h => ?_⟩
    cases h with
    | square hheight | resize hheight => exact hnone _ _ hheight

theorem describes_parseCrop {token : String} {body : List Char}
    (htoken : token.toList = 'o' :: body) : (parseCrop token body).Describes ('o' :: body) := by
  have hnames : NamesOperation ('o' :: body) := ⟨'o', by simp, rfl⟩
  unfold parseCrop
  rcases hscan : scanNumber body with ⟨height?, rest⟩
  split
  · next _ after heq =>
      obtain ⟨rfl, rfl⟩ := Prod.mk.inj heq
      cases height? with
      | none =>
          refine ⟨htoken, hnames, fun d h => ?_⟩
          cases h with
          | crop hheight => cases hscan.symm.trans (scanNumber_of_opensWith hheight)
      | some height =>
          have hheight := opensWith_of_scanNumber hscan
          rcases scanNumber_cases after with ⟨width, rest, hscan', hwidth⟩ | ⟨hscan', hnone⟩
          · rcases hdy : scanDistance rest with ⟨dy?, between⟩
            rcases hdx : scanDistance between with ⟨dx?, last⟩
            simp only [hscan', hdy, hdx]
            exact .crop hheight hwidth (distances_of_scans hwidth.not_isDigit hdy hdx)
          · simp only [hscan']
            refine ⟨htoken, hnames, fun d h => ?_⟩
            cases h with
            | crop hheight' hwidth =>
                obtain rfl := (List.cons.inj (hheight.unique hheight').2).2
                exact hnone _ _ hwidth
  · next hx =>
      refine ⟨htoken, hnames, fun d h => ?_⟩
      cases h with
      | crop hheight =>
          exact hx _ _ (hscan.symm.trans (scanNumber_of_opensWith hheight))

theorem describes_parseQuality {token : String} {body : List Char}
    (htoken : token.toList = 'q' :: body) : (parseQuality token body).Describes ('q' :: body) := by
  unfold parseQuality
  rcases scanNumber_cases body with ⟨value, rest, hscan, hvalue⟩ | ⟨hscan, hnone⟩
  · rw [hscan]
    exact .quality hvalue
  · rw [hscan]
    refine ⟨htoken, ⟨'q', by simp, rfl⟩, fun d h => ?_⟩
    cases h with
    | quality hvalue => exact hnone _ _ hvalue

/-- The first character selects the operation. -/
theorem kindOf_cases (token : String) :
    (∃ body, token.toList = 'r' :: body ∧ kindOf token = .resize) ∨
      (∃ body, token.toList = 'o' :: body ∧ kindOf token = .crop) ∨
      (∃ body, token.toList = 'q' :: body ∧ kindOf token = .quality) ∨
      ¬ NamesOperation token.toList ∧ kindOf token = .unknown := by
  unfold kindOf
  split
  · next body htoken => exact Or.inl ⟨body, htoken, rfl⟩
  · next body htoken => exact Or.inr (Or.inl ⟨body, htoken, rfl⟩)
  · next body htoken => exact Or.inr (Or.inr (Or.inl ⟨body, htoken, rfl⟩))
  · next hr ho hq =>
      refine Or.inr (Or.inr (Or.inr ⟨?_, rfl⟩))
      rintro ⟨letter, hletter, hhead⟩
      obtain ⟨body, hbody⟩ := List.head?_eq_some_iff.1 hhead
      simp only [List.mem_cons, List.not_mem_nil, or_false] at hletter
      rcases hletter with rfl | rfl | rfl
      · exact hr body hbody
      · exact ho body hbody
      · exact hq body hbody

/-- What a token is read as describes it. -/
theorem describes_parse (token : String) : (parse token).Describes token.toList := by
  unfold parse
  rcases kindOf_cases token with
    ⟨body, htoken, hkind⟩ | ⟨body, htoken, hkind⟩ | ⟨body, htoken, hkind⟩ | ⟨hnot, hkind⟩
  · rw [hkind, htoken]
    exact describes_parseResize htoken
  · rw [hkind, htoken]
    exact describes_parseCrop htoken
  · rw [hkind, htoken]
    exact describes_parseQuality htoken
  · rw [hkind]
    exact ⟨rfl, hnot⟩

/-- A token spells a directive, or it names an operation and spells none, or it names none. -/
theorem parse_cases (token : String) :
    (∃ d, parse token = .known d ∧ Spells token.toList d) ∨
      (∃ fault, parse token = .malformed fault ∧ fault.token = token ∧
        NamesOperation token.toList ∧ ∀ d, ¬ Spells token.toList d) ∨
      parse token = .unknown token ∧ ¬ NamesOperation token.toList := by
  have hdescribes := describes_parse token
  cases hreading : parse token with
  | known d =>
      rw [hreading] at hdescribes
      exact Or.inl ⟨d, rfl, hdescribes⟩
  | malformed fault =>
      rw [hreading] at hdescribes
      obtain ⟨htoken, hnames, hnone⟩ := hdescribes
      exact Or.inr (Or.inl ⟨fault, rfl, String.toList_injective htoken, hnames, hnone⟩)
  | unknown text =>
      rw [hreading] at hdescribes
      obtain ⟨htext, hnot⟩ := hdescribes
      exact Or.inr (Or.inr ⟨congrArg Reading.unknown (String.toList_injective htext), hnot⟩)

theorem parse_eq_known {token : String} {d : Directive} :
    parse token = .known d ↔ Spells token.toList d := by
  rcases parse_cases token with
    ⟨d', hreading, hspells⟩ | ⟨fault, hreading, -, -, hnone⟩ | ⟨hreading, hnot⟩
  · rw [hreading]
    constructor
    · intro h
      rwa [Reading.known.inj h] at hspells
    · exact fun h => congrArg Reading.known (hspells.unique h)
  · rw [hreading]
    exact iff_of_false nofun (hnone d)
  · rw [hreading]
    exact iff_of_false nofun fun h => hnot h.namesOperation

theorem exists_parse_eq_malformed {token : String} :
    (∃ fault, parse token = .malformed fault) ↔
      NamesOperation token.toList ∧ ∀ d, ¬ Spells token.toList d := by
  rcases parse_cases token with
    ⟨d, hreading, hspells⟩ | ⟨fault, hreading, -, hnames, hnone⟩ | ⟨hreading, hnot⟩
  · rw [hreading]
    exact iff_of_false nofun fun h => h.2 d hspells
  · exact iff_of_true ⟨fault, hreading⟩ ⟨hnames, hnone⟩
  · rw [hreading]
    exact iff_of_false nofun fun h => hnot h.1

/-- A fault names the token that was read. -/
theorem token_of_malformed {token : String} {fault : DirectiveFault}
    (h : parse token = .malformed fault) : fault.token = token := by
  rcases parse_cases token with ⟨d, hreading, -⟩ | ⟨fault', hreading, htoken, -⟩ | ⟨hreading, -⟩
  · cases hreading.symm.trans h
  · rwa [Reading.malformed.inj (hreading.symm.trans h)] at htoken
  · cases hreading.symm.trans h

/-- A token is unknown exactly if it names no operation, and it is kept as it is. -/
theorem parse_eq_unknown {token text : String} :
    parse token = .unknown text ↔ text = token ∧ ¬ NamesOperation token.toList := by
  rcases parse_cases token with
    ⟨d, hreading, hspells⟩ | ⟨fault, hreading, -, hnames, -⟩ | ⟨hreading, hnot⟩
  · rw [hreading]
    exact iff_of_false nofun fun h => h.2 hspells.namesOperation
  · rw [hreading]
    exact iff_of_false nofun fun h => h.2 hnames
  · rw [hreading]
    constructor
    · exact fun h => ⟨(Reading.unknown.inj h).symm, hnot⟩
    · exact fun h => congrArg Reading.unknown h.1.symm

/-! ### The range of distances -/

theorem OpensWith.mem_of_mem {s rest : List Char} {n : UInt32} (h : OpensWith s n rest) {c : Char}
    (hc : c ∈ rest) : c ∈ s := by
  obtain ⟨digits, rfl, -⟩ := h
  exact List.mem_append_right _ hc

/-- The distances of a crop stand in its token. -/
theorem Spells.distances {s : List Char} {height width : UInt32} {dy dx : Int64}
    (h : Spells s (.crop height width dy dx)) :
    ∃ rest, (∀ c ∈ rest, c ∈ s) ∧ Distances rest dy.toInt dx.toInt := by
  cases h with
  | @crop _ after rest _ _ _ _ hheight hwidth hdistances =>
      refine ⟨rest, fun c hc => ?_, hdistances⟩
      have hafter : c ∈ 'x' :: after := List.mem_cons_of_mem _ (hwidth.mem_of_mem hc)
      exact List.mem_cons_of_mem _ (hheight.mem_of_mem hafter)

theorem OpensWithDistance.natAbs_le {s rest : List Char} {d : Int}
    (h : OpensWithDistance s d rest) : d.natAbs ≤ 2 ^ 32 - 1 := by
  cases h with
  | @plus _ _ n | @minus _ _ n =>
      have := n.toNat_lt
      omega

theorem Distances.natAbs_le {s : List Char} {dy dx : Int} (h : Distances s dy dx) :
    dy.natAbs ≤ 2 ^ 32 - 1 ∧ dx.natAbs ≤ 2 ^ 32 - 1 := by
  cases h with
  | none => exact ⟨Nat.zero_le _, Nat.zero_le _⟩
  | down hdy => exact ⟨hdy.natAbs_le, Nat.zero_le _⟩
  | both hdy hdx => exact ⟨hdy.natAbs_le, hdx.natAbs_le⟩

/-- Without a letter there is no distance. -/
theorem Distances.eq_zero {s : List Char} {dy dx : Int} (h : Distances s dy dx) (hplus : 'p' ∉ s)
    (hminus : 'm' ∉ s) : dy = 0 ∧ dx = 0 := by
  have hnone : ∀ d rest, ¬ OpensWithDistance s d rest := by
    intro d rest hopens
    cases hopens with
    | plus => exact hplus List.mem_cons_self
    | minus => exact hminus List.mem_cons_self
  exact h.unique (.none hnone)

/-! ### Canonical tokens -/

/-- The size of a resize or a crop, written with the digits of its numbers. -/
def sizeText (height width : UInt32) : String :=
  toString height.toNat ++ "x" ++ toString width.toNat

/-- A distance, written with its letter and the digits of its number. -/
def distanceText (negative : Bool) (n : UInt32) : String :=
  (if negative then "m" else "p") ++ toString n.toNat

theorem toList_distanceText (negative : Bool) (n : UInt32) :
    (distanceText negative n).toList
      = (if negative then 'm' else 'p') :: (toString n.toNat).toList := by
  cases negative <;> simp [distanceText]

theorem opensWithDistance_distanceText (negative : Bool) (n : UInt32) {rest : List Char}
    (hrest : ∀ c ∈ rest.head?, isDigit c = false) :
    OpensWithDistance ((distanceText negative n).toList ++ rest) (signedField negative n).toInt
      rest := by
  have hopens := OpensWith.of_toString n hrest
  rw [toInt_signedField, toList_distanceText]
  cases negative with
  | false => exact .plus hopens
  | true => exact .minus hopens

theorem not_isDigit_distanceText (negative : Bool) (n : UInt32) (rest : List Char) :
    ∀ c ∈ ((distanceText negative n).toList ++ rest).head?, isDigit c = false := by
  intro c hc
  rw [toList_distanceText] at hc
  obtain rfl := Option.some.inj hc
  cases negative <;> rfl

theorem parse_resize (height width : UInt32) :
    parse ("r" ++ sizeText height width) = .known (.resize height width) := by
  have htext : ("r" ++ sizeText height width).toList
      = 'r' :: ((toString height.toNat).toList
          ++ 'x' :: ((toString width.toNat).toList ++ [])) := by
    simp [sizeText]
  rw [parse_eq_known, htext]
  exact .resize (.of_toString height (by simp [isDigit])) (.of_toString width (by simp))

theorem parse_crop (height width dy dx : UInt32) (up left : Bool) :
    parse ("o" ++ sizeText height width ++ distanceText up dy ++ distanceText left dx)
      = .known (.crop height width (signedField up dy) (signedField left dx)) := by
  have htext : ("o" ++ sizeText height width ++ distanceText up dy ++ distanceText left dx).toList
      = 'o' :: ((toString height.toNat).toList ++ 'x' :: ((toString width.toNat).toList
          ++ ((distanceText up dy).toList ++ ((distanceText left dx).toList ++ [])))) := by
    simp [sizeText]
  rw [parse_eq_known, htext]
  exact .crop (.of_toString height (by simp [isDigit]))
    (.of_toString width (not_isDigit_distanceText up dy _))
    (.both (opensWithDistance_distanceText up dy (not_isDigit_distanceText left dx _))
      (opensWithDistance_distanceText left dx (by simp)))

theorem parse_quality (value : UInt32) :
    parse ("q" ++ toString value.toNat) = .known (.quality value) := by
  have htext : ("q" ++ toString value.toNat).toList
      = 'q' :: ((toString value.toNat).toList ++ []) := by
    simp
  rw [parse_eq_known, htext]
  exact .quality (.of_toString value (by simp))

/-! ### The grammar -/

/-- A token is read as the directive that it spells. If it opens with the letter of an operation and
spells none it is malformed, and the fault names it. Every other token is unknown, the empty one
included, and its reading is the token itself. Distances are no larger than numbers, and only a
letter introduces one. The canonical tokens are read as what they are the tokens of. -/
theorem parse_iff_spells :
    (∀ token d, parse token = .known d ↔ Spells token.toList d) ∧
    (∀ token, (∃ fault detail, parse token = .malformed fault ∧
        fault.toError = .malformedDirective detail) ↔
      NamesOperation token.toList ∧ ∀ d, ¬ Spells token.toList d) ∧
    (∀ token fault, parse token = .malformed fault → fault.token = token) ∧
    (∀ token text, parse token = .unknown text ↔ text = token ∧ ¬ NamesOperation token.toList) ∧
    (∀ token height width dy dx, parse token = .known (.crop height width dy dx) →
      dy.toInt.natAbs ≤ 2 ^ 32 - 1 ∧ dx.toInt.natAbs ≤ 2 ^ 32 - 1 ∧
        ('p' ∉ token.toList → 'm' ∉ token.toList → dy = 0 ∧ dx = 0)) ∧
    (∀ height width, parse ("r" ++ sizeText height width) = .known (.resize height width)) ∧
    (∀ height width dy dx up left,
      parse ("o" ++ sizeText height width ++ distanceText up dy ++ distanceText left dx)
        = .known (.crop height width (signedField up dy) (signedField left dx))) ∧
    ∀ value, parse ("q" ++ toString value.toNat) = .known (.quality value) := by
  refine ⟨fun _ _ => parse_eq_known, fun token => ?_, fun _ _ => token_of_malformed,
    fun _ _ => parse_eq_unknown, fun token height width dy dx h => ?_, parse_resize, parse_crop,
    parse_quality⟩
  · rw [← exists_parse_eq_malformed]
    refine exists_congr fun fault => ?_
    cases fault <;> simp [DirectiveFault.toError]
  · obtain ⟨rest, hrest, hdistances⟩ := (parse_eq_known.1 h).distances
    refine ⟨hdistances.natAbs_le.1, hdistances.natAbs_le.2, fun hplus hminus => ?_⟩
    obtain ⟨hdy, hdx⟩ := hdistances.eq_zero (mt (hrest _) hplus) (mt (hrest _) hminus)
    exact ⟨Int64.toInt_inj.1 hdy, Int64.toInt_inj.1 hdx⟩

/-- Digits beyond the range and a letter without a number behind the distances, a crop whose
distances lack their letters, a bare letter, and a token of no kind that is not in ASCII. -/
theorem parse_iff_spells_saturated :
    let d : Directive := .crop 10 20 (-3) 4294967295
    (parse "o10x20m3p99999999999m" = .known d ∧ Spells "o10x20m3p99999999999m".toList d ∧
      (4294967295 : Int64).toInt.natAbs ≤ 2 ^ 32 - 1) ∧
    (∃ dy dx, parse "o10x20 5" = .known (.crop 10 20 dy dx) ∧ dy = 0 ∧ dx = 0) ∧
    (∃ fault, parse "r" = .malformed fault ∧ fault.token = "r") ∧
    parse "été" = .unknown "été" := by
  intro d
  obtain ⟨hknown, -, hfault, hunknown, hrange, -⟩ := parse_iff_spells
  have hcrop : parse "o10x20m3p99999999999m" = .known d := by decide
  have hbare : parse "o10x20 5" = .known (.crop 10 20 0 0) := by decide
  have hmalformed : parse "r" = .malformed (.noHeight "r") := by decide
  have hnot : ¬ NamesOperation "été".toList := by simp [NamesOperation]
  refine ⟨⟨hcrop, (hknown _ _).1 hcrop, (hrange _ _ _ _ _ hcrop).2.1⟩, ⟨0, 0, hbare, ?_⟩,
    ⟨_, hmalformed, hfault _ _ hmalformed⟩, (hunknown _ _).2 ⟨rfl, hnot⟩⟩
  exact (hrange _ _ _ _ _ hbare).2.2 (by decide) (by decide)

end Rendition.Directive
