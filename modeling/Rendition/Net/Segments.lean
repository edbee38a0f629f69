/-!
# Rendition.Net.Segments

The segments of the path of a URI, which stand between slashes. A segment that is a dot stays where
it is and one of two dots leads one segment up; `withoutDots` carries both out, so what it answers
has neither. A dot may be percent-encoded.
-/

namespace Rendition.Net

/-- A segment whose encoded dots are decoded. -/
def decodeDots : List Char → List Char
  | '%' :: '2' :: 'e' :: rest => '.' :: decodeDots rest
  | '%' :: '2' :: 'E' :: rest => '.' :: decodeDots rest
  | c :: rest => c :: decodeDots rest
  | [] => []

/-- Does a segment stay where it is? -/
def isDot (segment : List Char) : Bool :=
  decodeDots segment = ['.']

/-- Does a segment lead one segment up? -/
def isDoubleDot (segment : List Char) : Bool :=
  decodeDots segment = ['.', '.']

/-- Does a segment name a drive: a letter and a colon or a bar, and nothing but a backslash behind
them? No segment leads up from a drive. -/
def isDrive : List Char → Bool
  | [letter, mark] => letter.isAlpha && (mark = ':' || mark = '|')
  | letter :: mark :: '\\' :: _ => letter.isAlpha && (mark = ':' || mark = '|')
  | _ => false

/-- The segments above the last one, which comes first here. -/
def above : List (List Char) → List (List Char)
  | [] => []
  | segment :: outer => if isDrive segment then segment :: outer else outer

/-- What dots leave behind when `rest` follows: an empty segment, if they stand at the end. -/
def afterDots (rest outer : List (List Char)) : List (List Char) :=
  if rest.isEmpty then [] :: outer else outer

/-- The segments of a path in which dots are carried out. Those in `outer` come before, the last one
first. -/
def withoutDotsBehind (outer : List (List Char)) : List (List Char) → List (List Char)
  | [] => outer.reverse
  | segment :: rest =>
    if isDoubleDot segment then withoutDotsBehind (afterDots rest (above outer)) rest
    else if isDot segment then withoutDotsBehind (afterDots rest outer) rest
    else withoutDotsBehind (segment :: outer) rest

/-- The segments of a path in which dots are carried out. -/
def withoutDots (segments : List (List Char)) : List (List Char) :=
  withoutDotsBehind [] segments

example : withoutDots ["6".toList, "..".toList, "5".toList, ".".toList] = [['5'], []] := by decide
example : withoutDots ["..".toList, "%2e%2E".toList] = [[]] := by decide
example : withoutDots ["C:".toList, "..".toList, "5".toList] = ["C:".toList, ['5']] := by decide

theorem mem_of_mem_above {outer : List (List Char)} {s : List Char} (hs : s ∈ above outer) :
    s ∈ outer := by
  cases outer with
  | nil => exact hs
  | cons first others =>
      by_cases h : isDrive first
      · simpa [above, h] using hs
      · exact List.mem_cons_of_mem _ (by simpa [above, h] using hs)

theorem mem_afterDots {rest outer : List (List Char)} {s : List Char}
    (hs : s ∈ afterDots rest outer) : s = [] ∨ s ∈ outer := by
  unfold afterDots at hs
  split at hs
  · simpa using hs
  · exact .inr hs

theorem not_isDot_of_mem_withoutDotsBehind {outer segments : List (List Char)} {s : List Char}
    (houter : ∀ s ∈ outer, isDot s = false ∧ isDoubleDot s = false)
    (hs : s ∈ withoutDotsBehind outer segments) : isDot s = false ∧ isDoubleDot s = false := by
  have after {rest outer : List (List Char)}
      (h : ∀ s ∈ outer, isDot s = false ∧ isDoubleDot s = false) :
      ∀ s ∈ afterDots rest outer, isDot s = false ∧ isDoubleDot s = false := fun s hs =>
    (mem_afterDots hs).elim (fun e => e ▸ by decide) (h s)
  fun_induction withoutDotsBehind outer segments with
  | case1 outer => exact houter s (by simpa using hs)
  | case2 outer segment rest _ ih => exact ih (after fun s hs => houter s (mem_of_mem_above hs)) hs
  | case3 outer segment rest _ _ ih => exact ih (after houter) hs
  | case4 outer segment rest hdouble hdot ih =>
      refine ih (fun s hs => ?_) hs
      rcases List.mem_cons.1 hs with rfl | hs
      · exact ⟨by simpa using hdot, by simpa using hdouble⟩
      · exact houter s hs

/-- No segment that is left is a dot or two. -/
theorem not_isDot_of_mem_withoutDots {segments : List (List Char)} {s : List Char}
    (hs : s ∈ withoutDots segments) : isDot s = false ∧ isDoubleDot s = false :=
  not_isDot_of_mem_withoutDotsBehind (by simp) hs

end Rendition.Net
