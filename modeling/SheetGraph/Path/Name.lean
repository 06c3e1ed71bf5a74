/-!
# File names

A `Name` is what one directory can call an entry: not empty, without a slash, and neither `.` nor
`..`.  Its stem and extension are split at the last dot (`splitExtension`), a dot in front counting
as part of the stem.  Names are texts; names that are not Unicode do not occur.
-/

namespace SheetGraph

/-- Whether a text can be the name of a directory entry. -/
def isName (cs : List Char) : Bool :=
  cs != [] && cs != ['.'] && cs != ['.', '.'] && !cs.contains '/'

/-- The name of a directory entry. -/
structure Name where
  text : String
  valid : isName text.toList = true
  deriving DecidableEq

namespace Name

/-- The name that a text spells, if it spells one. -/
def ofChars? (cs : List Char) : Option Name :=
  if h : isName (String.ofList cs).toList then some ⟨String.ofList cs, h⟩ else none

/-- The name that a string spells, if it spells one. -/
def ofString? (s : String) : Option Name :=
  if h : isName s.toList then some ⟨s, h⟩ else none

instance : ToString Name := ⟨Name.text⟩

/-- The characters of the name. -/
def chars (n : Name) : List Char :=
  n.text.toList

/-- Names are ordered by their code points. -/
def compare (a b : Name) : Ordering :=
  List.compareLex (fun c d => Ord.compare c.toNat d.toNat) a.chars b.chars

end Name

/-! ### Stem and extension -/

/-- The text before the last dot and the text after it.  A text without a dot, and one whose only
dot comes first, is all stem. -/
def splitExtension (cs : List Char) : List Char × Option (List Char) :=
  let after := (cs.reverse.takeWhile (· != '.')).reverse
  match cs.reverse.dropWhile (· != '.') with
  | [] | [_] => (cs, none)
  | _ :: before => (before.reverse, some after)

/-- The extension of a file name. -/
def extension? (cs : List Char) : Option (List Char) :=
  (splitExtension cs).2

/-- The stem of a file name. -/
def stem (cs : List Char) : List Char :=
  (splitExtension cs).1

/-! ### Laws -/

namespace Name

theorem ext_text {a b : Name} (h : a.text = b.text) : a = b := by
  cases a; cases b; cases h; rfl

theorem ofChars?_chars (n : Name) : ofChars? n.chars = some n := by
  simp [ofChars?, chars, n.valid]

theorem slash_not_mem_chars (n : Name) : '/' ∉ n.chars := by
  have h := n.valid
  simp only [isName, Bool.and_eq_true, Bool.not_eq_true'] at h
  simpa [chars] using h.2

end Name

/-- **Stem, dot and extension make up the name again.** -/
theorem stem_append_extension {cs ext : List Char} (h : extension? cs = some ext) :
    stem cs ++ '.' :: ext = cs := by
  unfold extension? stem splitExtension at *
  have hsplit := List.takeWhile_append_dropWhile (p := (· != '.')) (l := cs.reverse)
  revert h
  split
  · simp
  · simp
  · rename_i d before _ hd
    intro h
    have hdot : d = '.' := by
      have := List.head?_dropWhile_not (· != '.') cs.reverse
      rw [hd] at this
      simpa using this
    simp only [Option.some.injEq] at h
    subst hdot
    rw [hd] at hsplit
    have := congrArg List.reverse hsplit
    simp only [List.reverse_append, List.reverse_cons, List.reverse_reverse] at this
    rw [← h]
    simpa using this

/-- A text without an extension is its own stem. -/
theorem stem_eq_self {cs : List Char} (h : extension? cs = none) : stem cs = cs := by
  unfold extension? stem splitExtension at *
  split <;> simp_all

end SheetGraph
