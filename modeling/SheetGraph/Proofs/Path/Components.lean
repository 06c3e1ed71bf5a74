import SheetGraph.Proofs.Path.Parent

/-!
# Paths by their components

Paths of names are ordered like the names (`compare_ofNames`, `Location.compare_path`), what is left
of the path of a location behind a directory is the path of the names in between
(`Location.relativeTo?_path`), and a relative path that is written behind another one has its
components behind those of the other (`components_join`).
-/

namespace SheetGraph

/-! ### The order of paths -/

theorem compareLex_map_name (as bs : List Name) :
    List.compareLex Component.compare (as.map .name) (bs.map .name)
      = List.compareLex Name.compare as bs := by
  induction as generalizing bs with
  | nil => cases bs <;> rfl
  | cons a as ih =>
    cases bs with
    | nil => rfl
    | cons b bs =>
      rw [List.map_cons, List.map_cons, List.compareLex_cons_cons, List.compareLex_cons_cons, ih]
      rfl

namespace Path

variable {p q : Path}

/-- A path that begins with no slash and no dot has a component for each of its texts, except for
those that are passed over. -/
theorem components_of_segments {first : List Char} {rest : List (List Char)}
    (hp : p.segments = first :: rest) (hidle : isIdle first = false) :
    p.components = p.segments.filterMap Component.ofSegment? := by
  rw [isIdle, Bool.or_eq_false_iff, beq_eq_false_iff_ne, beq_eq_false_iff_ne] at hidle
  rw [components, hp, componentsOf, leading, if_neg hidle.1, if_neg hidle.2]
  cases hfirst : Component.ofSegment? first with
  | none => rw [List.filterMap_cons_none hfirst, Option.toList_none, List.nil_append]
  | some c => rw [List.filterMap_cons_some hfirst, Option.toList_some, List.singleton_append]

@[simp] theorem components_ofNames (names : List Name) :
    (ofNames names).components = names.map .name := by
  cases names with
  | nil => rfl
  | cons n names =>
    have hsegments := segments_ofNames (List.cons_ne_nil n names)
    rw [components_of_segments hsegments (isIdle_chars n), hsegments, filterMap_chars]

/-- **Paths of names are in the order of the names.** -/
theorem compare_ofNames (as bs : List Name) :
    (ofNames as).compare (ofNames bs) = List.compareLex Name.compare as bs := by
  rw [compare, components_ofNames, components_ofNames, compareLex_map_name]

/-! ### Paths behind paths -/

/-- Only an empty text at the start asks whether others follow. -/
theorem leading_eq {first : List Char} {more : Bool} (h : first = [] → more = true) :
    leading first more = leading first true := by
  by_cases hnil : first = []
  · rw [h hnil]
  · rw [leading, leading, if_neg hnil, if_neg hnil]

theorem componentsOf_append {front rest : List (List Char)} (hfront : front ≠ [])
    (hrest : rest ≠ []) : componentsOf (front ++ rest)
      = componentsOf (front ++ [[]]) ++ rest.filterMap Component.ofSegment? := by
  obtain ⟨first, more, rfl⟩ := List.exists_cons_of_ne_nil hfront
  have hempty : [[]].filterMap Component.ofSegment? = [] := rfl
  have hmore : (!(more ++ rest).isEmpty) = true := by simp [hrest]
  have hmore' : (!(more ++ [[]]).isEmpty) = true := by simp
  rw [List.cons_append, List.cons_append, componentsOf, componentsOf, hmore, hmore',
    List.filterMap_append, List.filterMap_append, hempty, List.append_nil, List.append_assoc]

/-- A slash at the end of a path does not count, unless it is all of the path. -/
theorem componentsOf_concat_nil {front : List (List Char)} (hfront : front ≠ [])
    (hroot : front ≠ [[]]) : componentsOf (front ++ [[]]) = componentsOf front := by
  obtain ⟨first, more, rfl⟩ := List.exists_cons_of_ne_nil hfront
  have hmore : first = [] → (!more.isEmpty) = true := by
    rintro rfl
    simpa using hroot
  have hempty : [[]].filterMap Component.ofSegment? = [] := rfl
  have hmore' : (!(more ++ [[]]).isEmpty) = true := by simp
  rw [List.cons_append, componentsOf, componentsOf, leading_eq hmore, hmore',
    List.filterMap_append, hempty, List.append_nil]

/-- **A relative path behind another one** has its components behind those of the other, if it does
not begin with a dot, which would be passed over there. -/
theorem components_join {first : List Char} {rest : List (List Char)}
    (hq : q.segments = first :: rest) (hidle : isIdle first = false) :
    (p.join q).components = p.components ++ q.components := by
  have hrelative : q.isAbsolute = false := by
    by_contra habs
    obtain ⟨more, hmore, -⟩ := exists_segments_of_isAbsolute (Bool.not_eq_false _ ▸ habs)
    rw [(List.cons.inj (hq.symm.trans hmore)).1] at hidle
    cases hidle
  have hcomponents := components_of_segments hq hidle
  have hne : q.segments ≠ [] := List.splitOn_ne_nil _ _
  rw [join, hrelative, if_neg Bool.false_ne_true]
  split_ifs with hend
  · rcases hend with hnil | hslash
    · -- There is nothing in front.
      have hsame : ofChars (p.chars ++ q.chars) = q := by
        rw [hnil, List.nil_append, ofChars, chars, String.ofList_toList]
      have hnone : p.components = [] := by
        rw [components, segments, hnil]
        rfl
      rw [hsame, hnone, List.nil_append]
    · -- The slash at the end of `p` is the one between the two.
      obtain ⟨front, hfront⟩ := List.getLast?_eq_some_iff.mp hslash
      have hfirst : front.splitOn '/' ≠ [] := List.splitOn_ne_nil _ _
      have hp : p.segments = front.splitOn '/' ++ [[]] := by
        rw [segments, hfront, List.splitOn_append_cons_self, List.splitOn_nil]
      have hjoin : (ofChars (p.chars ++ q.chars)).segments = front.splitOn '/' ++ q.segments := by
        rw [segments, chars_ofChars, hfront, List.append_assoc, List.singleton_append,
          List.splitOn_append_cons_self, segments]
      rw [components, hjoin, componentsOf_append hfirst hne, ← hp, hcomponents]
      rfl
  · have hjoin : (ofChars (p.chars ++ '/' :: q.chars)).segments = p.segments ++ q.segments := by
      rw [segments, chars_ofChars, List.splitOn_append_cons_self, segments, segments]
    have hroot : p.segments ≠ [[]] := by
      intro hp
      apply hend
      left
      have hback : ['/'].intercalate p.segments = p.chars := List.intercalate_splitOn '/'
      rw [← hback, hp]
      rfl
    have hfirst : p.segments ≠ [] := List.splitOn_ne_nil _ _
    rw [components, hjoin, componentsOf_append hfirst hne, componentsOf_concat_nil hfirst hroot,
      hcomponents]
    rfl

/-- Names behind a path are components behind its own. -/
theorem components_join_ofNames (p : Path) {names : List Name} (hne : names ≠ []) :
    (p.join (ofNames names)).components = p.components ++ names.map .name := by
  obtain ⟨n, names, rfl⟩ := List.exists_cons_of_ne_nil hne
  rw [components_join (segments_ofNames hne) (isIdle_chars n), components_ofNames]

end Path

namespace Location

/-- **Locations are in the order of their paths.** -/
theorem compare_path (a b : Location) : a.path.compare b.path = a.compare b := by
  rw [Path.compare, components_path, components_path, List.compareLex_cons_cons,
    compareLex_map_name]
  rfl

/-- **What is left of a path** behind a directory is the path of the names in between. -/
theorem relativeTo?_path (l : Location) (names : List Name) :
    l.path.relativeTo? (l.below names).path = some (Path.ofNames names) := by
  have hrest : List.isPrefixOf? l.path.components (l.below names).path.components
      = some (names.map .name) := by
    rw [List.isPrefixOf?_eq_some_iff_append_eq, components_path, components_path, names_below,
      List.map_append]
    rfl
  rw [Path.relativeTo?, hrest, Option.map_some, List.map_map]
  rfl

end Location

end SheetGraph
