import Mathlib.Data.List.Infix
import SheetGraph.Proofs.Path.Location

/-!
# Paths of what is in a directory

A name at the end of a path is its last component (`Path.exists_components_of_segments`).

`Location.pathTo` is the path of a directory with one more text behind it: a name, or the `..` that
stands in its place in some outputs.  Its parent is the path of the directory (`parent?_pathTo`),
and a relative path seen from a directory has this form (`join_path`).
-/

namespace SheetGraph

/-! ### Texts between slashes -/

theorem intercalate_append {sep : Char} {front rest : List (List Char)} (hfront : front ≠ [])
    (hrest : rest ≠ []) :
    [sep].intercalate (front ++ rest)
      = [sep].intercalate front ++ sep :: [sep].intercalate rest := by
  induction front with
  | nil => exact absurd rfl hfront
  | cons cs front ih =>
    cases front with
    | nil =>
      rw [List.singleton_append, List.intercalate_cons_of_ne_nil hrest,
        List.intercalate_singleton, List.append_assoc, List.singleton_append]
    | cons cs' front =>
      have hne : cs' :: front ≠ [] := List.cons_ne_nil cs' front
      have hne' : cs' :: front ++ rest ≠ [] := List.cons_ne_nil cs' (front ++ rest)
      rw [List.cons_append, List.intercalate_cons_of_ne_nil hne', ih hne,
        List.intercalate_cons_of_ne_nil hne, List.append_assoc, List.append_assoc,
        List.append_assoc]

theorem isIdle_chars (n : Name) : Path.isIdle n.chars = false := by
  have h := n.valid
  simp only [isName, Bool.and_eq_true, bne_iff_ne] at h
  rw [Path.isIdle, Bool.or_eq_false_iff, beq_eq_false_iff_ne, beq_eq_false_iff_ne]
  exact ⟨h.1.1.1, h.1.1.2⟩

/-! ### Paths that end in a name -/

namespace Path

variable {p : Path} {n : Name}

/-- A name at the end of a path is its last component. -/
theorem exists_components_of_segments {front : List (List Char)}
    (h : p.segments = front ++ [n.chars]) : ∃ cs, p.components = cs ++ [.name n] := by
  cases front with
  | nil =>
    have hidle := isIdle_chars n
    rw [isIdle, Bool.or_eq_false_iff, beq_eq_false_iff_ne, beq_eq_false_iff_ne] at hidle
    refine ⟨[], ?_⟩
    rw [components, h, List.nil_append, componentsOf, leading, if_neg hidle.1, if_neg hidle.2,
      Component.ofSegment?_chars]
    rfl
  | cons first front =>
    rw [components, h, List.cons_append, componentsOf, List.filterMap_append,
      List.filterMap_cons_some (Component.ofSegment?_chars n), List.filterMap_nil,
      ← List.append_assoc]
    exact ⟨_, rfl⟩

theorem fileName?_of_segments {front : List (List Char)} (h : p.segments = front ++ [n.chars]) :
    p.fileName? = some n := by
  obtain ⟨cs, hcs⟩ := exists_components_of_segments h
  rw [fileName?, hcs, List.getLast?_concat]

end Path

namespace Location

variable {l : Location} {last : List Char}

/-- The path of the directory with one more text behind it. -/
def pathTo (l : Location) (last : List Char) : Path :=
  Path.ofChars ('/' :: ['/'].intercalate (l.names.map Name.chars ++ [last]))

theorem pathTo_chars (l : Location) (n : Name) : l.pathTo n.chars = (l.entry n).path := by
  rw [pathTo, path, joinNames, names_entry, List.map_append, List.map_singleton]

theorem segments_pathTo (h : '/' ∉ last) :
    (l.pathTo last).segments = [] :: (l.names.map Name.chars ++ [last]) := by
  rw [Path.segments, pathTo, Path.chars_ofChars, Path.splitOn_slash_cons, List.splitOn_intercalate]
  · intro cs hcs
    rw [List.mem_append, List.mem_singleton] at hcs
    rcases hcs with hcs | rfl
    · obtain ⟨n, -, rfl⟩ := List.mem_map.mp hcs
      exact n.slash_not_mem_chars
    · exact h
  · simp

@[simp] theorem isAbsolute_pathTo (l : Location) (last : List Char) :
    (l.pathTo last).isAbsolute = true := by
  simp [Path.isAbsolute, pathTo]

@[simp] theorem isEmpty_pathTo (l : Location) (last : List Char) :
    (l.pathTo last).isEmpty = false := by
  simp [Path.isEmpty, pathTo]

theorem components_pathTo (h : '/' ∉ last) : (l.pathTo last).components
    = .root :: (l.names.map Component.name ++ (Component.ofSegment? last).toList) := by
  rw [Path.components, segments_pathTo h, Path.componentsOf, List.filterMap_append,
    filterMap_chars, Path.leading, if_pos rfl]
  cases hlast : Component.ofSegment? last with
  | none => simp [hlast]
  | some c => simp [hlast]

/-- **The parent of a path in a directory** is the path of the directory. -/
theorem parent?_pathTo (hslash : '/' ∉ last) (hidle : Path.isIdle last = false) :
    (l.pathTo last).parent? = some l.path := by
  have hlast : (l.pathTo last).segments.reverse.dropWhile Path.isIdle
      = last :: ((l.names.map Name.chars).reverse ++ [[]]) := by
    rw [segments_pathTo hslash, List.reverse_cons, List.reverse_append, List.reverse_singleton,
      List.singleton_append, List.cons_append,
      List.dropWhile_cons_of_neg (by rw [hidle]; exact Bool.false_ne_true)]
  unfold Path.parent?
  rw [hlast, isAbsolute_pathTo]
  dsimp only
  rcases List.eq_nil_or_concat l.names with hnil | ⟨names, n, hnames⟩
  · obtain ⟨names⟩ := l
    dsimp only at hnil
    rw [hnil]
    rfl
  · -- The last name of the directory is kept, and all that is in front of it.
    have hkept : ((l.names.map Name.chars).reverse ++ [[]]).dropWhile Path.isIdle
        = (l.names.map Name.chars).reverse ++ [[]] := by
      rw [hnames, List.concat_eq_append, List.map_append, List.map_singleton, List.reverse_append,
        List.reverse_singleton, List.singleton_append, List.cons_append,
        List.dropWhile_cons_of_neg (by rw [isIdle_chars]; exact Bool.false_ne_true)]
    rw [hkept]
    have hne : l.names.map Name.chars ≠ [] := by
      rw [hnames]
      simp
    split
    · rename_i hnone
      simp at hnone
    · rw [List.reverse_append, List.reverse_reverse, List.reverse_singleton,
        List.singleton_append, List.intercalate_cons_of_ne_nil hne]
      rfl

theorem parent?_entry (l : Location) (n : Name) : (l.entry n).path.parent? = some l.path := by
  rw [← pathTo_chars, parent?_pathTo n.slash_not_mem_chars (isIdle_chars n)]

/-- A path has more characters than names. -/
theorem length_names_lt (l : Location) : l.names.length < l.path.chars.length := by
  have hjoin : ∀ names : List Name, names.length ≤ (joinNames names).length := by
    intro names
    unfold joinNames
    induction names with
    | nil => exact Nat.zero_le _
    | cons n names ih =>
      have hpos : 0 < n.chars.length := List.length_pos_of_ne_nil n.chars_ne_nil
      cases names with
      | nil =>
        rw [List.map_singleton, List.intercalate_singleton, List.length_singleton]
        omega
      | cons m names =>
        rw [List.map_cons, List.map_cons, List.intercalate_cons_cons, ← List.map_cons,
          List.length_append, List.length_append, List.length_singleton, List.length_cons]
        omega
  rw [path, Path.chars_ofChars, List.length_cons]
  exact Nat.lt_succ_of_le (hjoin l.names)

/-- Only the path of the root ends in a slash. -/
theorem getLast?_path_ne (h : l.names ≠ []) : l.path.chars.getLast? ≠ some '/' := by
  obtain ⟨names, n, hnames⟩ := (List.eq_nil_or_concat l.names).resolve_left h
  have hend : ∃ front, l.path.chars = front ++ n.chars := by
    rw [path, Path.chars_ofChars, joinNames, hnames, List.concat_eq_append, List.map_append,
      List.map_singleton]
    cases names with
    | nil =>
      rw [List.map_nil, List.nil_append, List.intercalate_singleton]
      exact ⟨['/'], rfl⟩
    | cons m names =>
      rw [intercalate_append (by simp) (by simp), List.intercalate_singleton]
      exact ⟨'/' :: (['/'].intercalate ((m :: names).map Name.chars) ++ ['/']), by simp⟩
  obtain ⟨front, hfront⟩ := hend
  intro hlast
  rw [hfront, List.getLast?_append_of_ne_nil _ n.chars_ne_nil] at hlast
  exact n.slash_not_mem_chars (List.mem_of_getLast? hlast)

/-- **A relative path seen from a directory** is a path in a directory below it. -/
theorem join_path (l : Location) (names : List Name)
    (hrelative : (Path.ofChars (['/'].intercalate (names.map Name.chars ++ [last]))).isAbsolute
      = false) :
    l.path.join (Path.ofChars (['/'].intercalate (names.map Name.chars ++ [last])))
      = (l.below names).pathTo last := by
  have hne : l.path.chars ≠ [] := by
    rw [path, Path.chars_ofChars]
    exact List.cons_ne_nil _ _
  unfold Path.join
  rw [hrelative, if_neg Bool.false_ne_true]
  by_cases hroot : l.names = []
  · have hslash : l.path.chars = ['/'] := by
      rw [path, Path.chars_ofChars, hroot]
      rfl
    rw [if_pos (Or.inr (by rw [hslash]; rfl)), hslash, Path.chars_ofChars, pathTo, names_below,
      hroot]
    rfl
  · rw [if_neg (not_or.mpr ⟨hne, getLast?_path_ne hroot⟩), Path.chars_ofChars, pathTo, names_below,
      List.map_append, List.append_assoc,
      intercalate_append (fun h => hroot (List.map_eq_nil_iff.mp h)) (by simp), path,
      Path.chars_ofChars]
    rfl

theorem join_ofNames (l : Location) (names : List Name) (n : Name) :
    l.path.join (Path.ofNames (names ++ [n])) = ((l.below names).entry n).path := by
  have hchars : Path.ofNames (names ++ [n])
      = Path.ofChars (['/'].intercalate (names.map Name.chars ++ [n.chars])) := by
    rw [Path.ofNames, joinNames, List.map_append, List.map_singleton]
  have hrelative := Path.isAbsolute_ofNames (names ++ [n])
  rw [hchars] at hrelative ⊢
  rw [join_path l names hrelative, pathTo_chars]

end Location

end SheetGraph
