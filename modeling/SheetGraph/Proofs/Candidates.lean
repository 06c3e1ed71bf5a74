import SheetGraph.Proofs.Path.Components
import SheetGraph.Proofs.Path.Folding
import SheetGraph.Proofs.Resolution

/-!
# Names of imported files

What a target may be resolved to ends in a name with the extension of a stylesheet source
(`exists_candidate`), whatever the target is.  That does not make it a stylesheet source itself: the
lookup does not mind a `.part` in front of the extension, and a target that ends in a slash stands
for files whose whole name is such an extension.  So an imported file has one of three kinds of
names (`kind_of_resolveTarget`).
-/

namespace SheetGraph

variable {d : Disk} {source l : Location} {target : String} {bases : List SearchBase} {n : Name}
  {cs front ext name : List Char}

/-! ### Extensions -/

/-- A text is cut at its last dot. -/
theorem cut_reverse (front : List Char) (hext : '.' ∉ ext) :
    (front ++ '.' :: ext).reverse.takeWhile (· != '.') = ext.reverse ∧
      (front ++ '.' :: ext).reverse.dropWhile (· != '.') = '.' :: front.reverse := by
  have hreverse : (front ++ '.' :: ext).reverse = ext.reverse ++ '.' :: front.reverse := by
    simp
  have hbehind : ∀ c ∈ ext.reverse, (c != '.') = true := by
    intro c hc
    rw [bne_iff_ne]
    rintro rfl
    exact hext (List.mem_reverse.mp hc)
  rw [hreverse]
  constructor
  · rw [List.takeWhile_append_of_pos hbehind, List.takeWhile_cons_of_neg (by decide),
      List.append_nil]
  · rw [List.dropWhile_append_of_pos hbehind, List.dropWhile_cons_of_neg (by decide)]

/-- What stands behind the last dot is the extension, unless that dot comes first. -/
theorem splitExtension_append (hfront : front ≠ []) (hext : '.' ∉ ext) :
    splitExtension (front ++ '.' :: ext) = (front, some ext) := by
  obtain ⟨hafter, hbefore⟩ := cut_reverse front hext
  obtain ⟨c, rest, hrest⟩ := List.exists_cons_of_ne_nil (List.reverse_ne_nil_iff.mpr hfront)
  rw [splitExtension, hafter, hbefore, hrest]
  dsimp only
  rw [← hrest, List.reverse_reverse, List.reverse_reverse]

theorem extension?_append (hfront : front ≠ []) (hext : '.' ∉ ext) :
    extension? (front ++ '.' :: ext) = some ext :=
  congrArg Prod.snd (splitExtension_append hfront hext)

theorem dot_notMem_extension (h : extension? cs = some ext) : '.' ∉ ext := by
  unfold extension? splitExtension at h
  split at h
  · cases h
  · cases h
  · cases h
    intro hmem
    have hbehind := List.all_eq_true.mp List.all_takeWhile '.' (List.mem_reverse.mp hmem)
    exact absurd hbehind (by decide)

/-- Whether the text has the extension of a stylesheet source. -/
def hasSourceExtension (cs : List Char) : Bool :=
  (extension? cs).any isSourceExtension

theorem hasSourceExtension_append {known : String} (hfront : front ≠ [])
    (hknown : known ∈ sourceExtensions) :
    hasSourceExtension (front ++ '.' :: known.toList) = true := by
  have hdot : ∀ known ∈ sourceExtensions, '.' ∉ known.toList := by
    decide
  have hsource : ∀ known ∈ sourceExtensions, isSourceExtension known.toList = true := by
    decide
  rw [hasSourceExtension, extension?_append hfront (hdot known hknown)]
  exact hsource known hknown

/-- An underscore in front leaves the extension as it is. -/
theorem hasSourceExtension_underscore (h : hasSourceExtension cs = true) :
    hasSourceExtension ('_' :: cs) = true := by
  cases hext : extension? cs with
  | none =>
    rw [hasSourceExtension, hext] at h
    cases h
  | some ext =>
    have hunderscore : extension? ('_' :: cs) = some ext := by
      rw [← stem_append_extension hext, ← List.cons_append]
      exact extension?_append (List.cons_ne_nil '_' _) (dot_notMem_extension hext)
    rw [hasSourceExtension, hext] at h
    rw [hasSourceExtension, hunderscore]
    exact h

/-! ### Kinds of names -/

/-- Whether `.part` stands in front of the extension of the name. -/
def Name.isPart (n : Name) : Bool :=
  (extension? (stem n.chars)).any (Text.sameLetters "part".toList)

/-- Whether the name is the extension of a stylesheet source with its dot, and nothing else. -/
def Name.isBare (n : Name) : Bool :=
  sourceExtensions.any fun known => n.chars == '.' :: known.toList

theorem Name.isStylesheet_eq (n : Name) :
    n.isStylesheet = (hasSourceExtension n.chars && !n.isPart) := rfl

/-- Whether the location has a name with `.part` in front of its extension. -/
def Location.isPart (l : Location) : Bool :=
  l.fileName?.any Name.isPart

/-- Whether the location has a name that is nothing but the extension of a stylesheet source. -/
def Location.isBare (l : Location) : Bool :=
  l.fileName?.any Name.isBare

@[simp] theorem Location.fileName?_entry (l : Location) (n : Name) :
    (l.entry n).fileName? = some n := by
  rw [fileName?, names_entry, List.getLast?_concat]

/-- Such a file is no stylesheet source. -/
theorem Location.isStylesheet_of_isPart (h : l.isPart = true) : l.isStylesheet = false := by
  unfold isPart at h
  unfold isStylesheet
  cases hn : l.fileName? with
  | none => rfl
  | some n =>
    rw [hn, Option.any_some] at h
    rw [Option.any_some, Name.isStylesheet_eq, h, Bool.not_true, Bool.and_false]

/-! ### Candidates -/

/-- The names of the candidates for a target that ends in `name`. -/
def candidateNames (name : List Char) : List (List Char) :=
  let variants := [name, '_' :: name]
  if hasSourceExtension name then variants
  else sourceExtensions.flatMap fun known => variants.map fun v => v ++ '.' :: known.toList

theorem candidatePaths_eq (target : String) :
    candidatePaths target = (candidateNames (splitTarget target.toList).2).map fun cs =>
      Path.ofChars ((splitTarget target.toList).1 ++ cs) := by
  rw [candidatePaths, candidateNames, hasSourceExtension]
  dsimp only
  split
  · rfl
  · simp [sourceExtensions]

/-- The name at the end of a target has no slash. -/
theorem slash_notMem_splitTarget (cs : List Char) : '/' ∉ (splitTarget cs).2 := by
  intro hmem
  have hbehind := List.all_eq_true.mp List.all_takeWhile '/' (List.mem_reverse.mp hmem)
  exact absurd hbehind (by decide)

/-- What stands in front of that name is nothing, or ends in a slash. -/
theorem splitTarget_fst (cs : List Char) :
    (splitTarget cs).1 = [] ∨ ∃ dir, (splitTarget cs).1 = dir ++ ['/'] := by
  have hhead := List.head?_dropWhile_not (· != '/') cs.reverse
  show (cs.reverse.dropWhile (· != '/')).reverse = [] ∨ ∃ dir,
    (cs.reverse.dropWhile (· != '/')).reverse = dir ++ ['/']
  cases hrest : cs.reverse.dropWhile (· != '/') with
  | nil => exact Or.inl rfl
  | cons c rest =>
    rw [hrest] at hhead
    have hc : c = '/' := by
      simpa using hhead
    exact Or.inr ⟨rest.reverse, by rw [hc, List.reverse_cons]⟩

/-- **A candidate** has the extension of a stylesheet source, or is nothing but such an
extension. -/
theorem kind_of_mem_candidateNames (h : cs ∈ candidateNames name) :
    hasSourceExtension cs = true ∨ ∃ known ∈ sourceExtensions, cs = '.' :: known.toList := by
  unfold candidateNames at h
  dsimp only at h
  split at h
  · rename_i hname
    rw [List.mem_cons, List.mem_singleton] at h
    rcases h with rfl | rfl
    · exact Or.inl hname
    · exact Or.inl (hasSourceExtension_underscore hname)
  · obtain ⟨known, hknown, h⟩ := List.mem_flatMap.mp h
    obtain ⟨v, hv, rfl⟩ := List.mem_map.mp h
    -- Only a target that ends in a slash has an empty name.
    cases v with
    | nil => exact Or.inr ⟨known, hknown, rfl⟩
    | cons c v => exact Or.inl (hasSourceExtension_append (List.cons_ne_nil c v) hknown)

/-- A candidate has no slash, as its target has none behind the last one. -/
theorem slash_notMem_candidateNames (hname : '/' ∉ name) (h : cs ∈ candidateNames name) :
    '/' ∉ cs := by
  have hknown : ∀ known ∈ sourceExtensions, '/' ∉ known.toList := by
    decide
  have hvariants : ∀ v ∈ [name, '_' :: name], '/' ∉ v := by
    simp [hname]
  unfold candidateNames at h
  dsimp only at h
  split at h
  · exact hvariants cs h
  · obtain ⟨known, hmem, h⟩ := List.mem_flatMap.mp h
    obtain ⟨v, hv, rfl⟩ := List.mem_map.mp h
    simp [hvariants v hv, hknown known hmem]

/-- A text with the extension of a stylesheet source is a name unless it has a slash. -/
theorem isName_of_hasSourceExtension (h : hasSourceExtension cs = true) (hslash : '/' ∉ cs) :
    isName cs = true := by
  have hne : ∀ other, hasSourceExtension other = false → cs ≠ other := by
    rintro other hother rfl
    rw [h] at hother
    cases hother
  simp only [isName, Bool.and_eq_true, bne_iff_ne, Bool.not_eq_true', List.contains_eq_mem,
    decide_eq_false_iff_not]
  exact ⟨⟨⟨hne [] (by decide), hne ['.'] (by decide)⟩, hne ['.', '.'] (by decide)⟩, hslash⟩

/-- What stands in front of the name of a target, and of the names of all its candidates. -/
def candidateDir (target : String) : Path :=
  Path.ofChars (splitTarget target.toList).1

theorem candidateDir_join (target : String) (n : Name) :
    (candidateDir target).join (Path.ofNames [n])
      = Path.ofChars ((splitTarget target.toList).1 ++ n.chars) := by
  have hend : (splitTarget target.toList).1 = [] ∨
      (splitTarget target.toList).1.getLast? = some '/' := by
    rcases splitTarget_fst target.toList with hnil | ⟨dir, hdir⟩
    · exact Or.inl hnil
    · exact Or.inr (by rw [hdir, List.getLast?_concat])
  have hname : (Path.ofNames [n]).chars = n.chars := by
    rw [Path.ofNames, Path.chars_ofChars, Location.joinNames, List.map_singleton,
      List.intercalate_singleton]
  rw [Path.join, Path.isAbsolute_ofNames, if_neg Bool.false_ne_true, candidateDir,
    Path.chars_ofChars, if_pos hend, hname]

/-- **What a candidate leads to** is an entry that has the candidate for its name, in the directory
that the front of the target leads to. -/
theorem exists_entry_candidate (hcs : cs ∈ candidateNames (splitTarget target.toList).2) :
    ∃ n : Name, n.chars = cs ∧ ∀ base,
      (Path.ofChars ((splitTarget target.toList).1 ++ cs)).locateFrom base
        = ((candidateDir target).locateFrom base).entry n := by
  have hslash := slash_notMem_candidateNames (slash_notMem_splitTarget target.toList) hcs
  have hname : isName cs = true := by
    rcases kind_of_mem_candidateNames hcs with hsource | ⟨known, hknown, rfl⟩
    · exact isName_of_hasSourceExtension hsource hslash
    · have hall : ∀ known ∈ sourceExtensions, isName ('.' :: known.toList) = true := by
        decide
      exact hall known hknown
  obtain ⟨n, rfl⟩ : ∃ n : Name, n.chars = cs :=
    ⟨⟨String.ofList cs, by rwa [String.toList_ofList]⟩, String.toList_ofList⟩
  refine ⟨n, rfl, fun base => ?_⟩
  rw [← candidateDir_join, Path.locateFrom_join,
    Path.locateFrom_of_name (Path.components_ofNames [n])]

/-- The name of that entry has the extension of a stylesheet source, or is nothing but such an
extension. -/
theorem exists_candidate {p : Path} (h : p ∈ candidatePaths target) (base : Location) :
    ∃ (dir : Location) (n : Name), p.locateFrom base = dir.entry n ∧
      (hasSourceExtension n.chars = true ∨ n.isBare = true) := by
  rw [candidatePaths_eq] at h
  obtain ⟨cs, hcs, rfl⟩ := List.mem_map.mp h
  obtain ⟨n, rfl, hdir⟩ := exists_entry_candidate hcs
  refine ⟨_, n, hdir base, (kind_of_mem_candidateNames hcs).imp_right ?_⟩
  rintro ⟨known, hknown, hn⟩
  exact List.any_eq_true.mpr ⟨known, hknown, beq_iff_eq.mpr hn⟩

/-! ### Imported files -/

/-- A target is resolved to a candidate that is read from one of the directories. -/
theorem exists_base_of_resolveTarget (h : resolveTarget d source target bases = .ok l) :
    ∃ base ∈ bases, ∃ p ∈ candidatePaths target, l = p.locateFrom base.directory := by
  induction bases with
  | nil => cases h
  | cons base bases ih =>
    rcases resolveTarget_cons_eq_ok_iff.mp h with hone | ⟨-, hrest⟩
    · have hmem : l ∈ existingCandidates d base.directory (candidatePaths target) := by
        rw [hone]
        exact List.mem_singleton_self l
      obtain ⟨p, hp, hl⟩ := List.mem_map.mp (mem_existingCandidates.mp hmem).1
      exact ⟨base, List.mem_cons_self, p, hp, hl.symm⟩
    · obtain ⟨base', hbase, hp⟩ := ih hrest
      exact ⟨base', List.mem_cons_of_mem base hbase, hp⟩

/-- **What a target is resolved to** is a stylesheet source, or has `.part` in front of its
extension, or is called like an extension. -/
theorem kind_of_resolveTarget (h : resolveTarget d source target bases = .ok l) :
    l.isStylesheet = true ∨ l.isPart = true ∨ l.isBare = true := by
  obtain ⟨base, -, p, hp, rfl⟩ := exists_base_of_resolveTarget h
  obtain ⟨dir, n, hdir, hkind⟩ := exists_candidate hp base.directory
  rw [hdir, Location.isStylesheet, Location.isPart, Location.isBare, Location.fileName?_entry,
    Option.any_some, Option.any_some, Option.any_some, Name.isStylesheet_eq]
  rcases hkind with hsource | hbare
  · rw [hsource]
    cases n.isPart <;> simp
  · exact Or.inr (Or.inr hbare)

end SheetGraph
