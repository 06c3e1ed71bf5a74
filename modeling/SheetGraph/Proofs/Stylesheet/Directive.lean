import Mathlib.Data.List.Infix
import SheetGraph.Proofs.Traversal
import SheetGraph.Stylesheet.Import
import SheetGraph.Text.Line

/-!
# Directives in a text without comments

How the arguments of directives are cut out of a text, and how an argument is cut into targets.

* `bracesArguments_append`, `bracesArguments_directive`: in the syntax with braces, text without an
  at sign is passed over, and a directive gives what is between its word and the next semicolon.
* `indentedArguments_append`, `exists_indentedArguments`: in the indented syntax each line stands
  for itself.
* `Pads.targetsOf_eq`: blanks around an argument do not count.  The two syntaxes cut different
  blanks off, and both cut a parenthesis off that may close the argument; `Closes` is what they have
  in common.
-/

namespace SheetGraph

open Text (isBlank isSpaceOrTab trim trimStart trimEnd sameLetters)

variable {cs inner pre word body rest : List Char}

/-! ### Texts between separators -/

/-- What stands in front of a piece between separators ends in the separator, whatever the piece
is. -/
theorem exists_intercalate_append (sep : Char) (pieces : List (List Char)) :
    ∃ front, (front = [] ∨ front.getLast? = some sep) ∧ ∀ piece rest,
      [sep].intercalate (pieces ++ piece :: rest) = front ++ [sep].intercalate (piece :: rest) := by
  induction pieces with
  | nil => exact ⟨[], Or.inl rfl, fun _ _ => rfl⟩
  | cons first pieces ih =>
    obtain ⟨front, hfront, happend⟩ := ih
    refine ⟨first ++ [sep] ++ front, Or.inr ?_, fun piece rest => ?_⟩
    · rcases hfront with rfl | hlast
      · rw [List.append_nil, List.getLast?_concat]
      · rw [List.getLast?_append, hlast]
        rfl
    · obtain ⟨next, more, hmore⟩ := List.exists_cons_of_ne_nil
        (List.append_ne_nil_of_right_ne_nil pieces (List.cons_ne_nil piece rest))
      rw [List.append_assoc, ← happend, List.cons_append, hmore, List.intercalate_cons_cons,
        List.append_assoc]

/-- **Where a piece stands** in a text that is cut at separators. -/
theorem exists_of_splitOn {sep : Char} {pieces rest : List (List Char)} {piece : List Char}
    (h : cs.splitOn sep = pieces ++ piece :: rest) :
    ∃ front back, (front = [] ∨ front.getLast? = some sep) ∧
      (rest = [] ∧ back = [] ∨ back.head? = some sep) ∧ cs = front ++ (piece ++ back) := by
  obtain ⟨front, hfront, happend⟩ := exists_intercalate_append sep pieces
  have hcs : cs = front ++ [sep].intercalate (piece :: rest) := by
    rw [← happend, ← h, List.intercalate_splitOn]
  cases rest with
  | nil => exact ⟨front, [], hfront, Or.inl ⟨rfl, rfl⟩, by simpa using hcs⟩
  | cons next rest =>
    rw [List.intercalate_cons_cons, List.append_assoc, List.singleton_append] at hcs
    exact ⟨front, sep :: [sep].intercalate (next :: rest), hfront, Or.inr rfl, hcs⟩

/-! ### Blanks around a text -/

/-- The text is the inner one with blanks around it. -/
def Pads (cs inner : List Char) : Prop :=
  ∃ pre post, (∀ c ∈ pre, isBlank c = true) ∧ (∀ c ∈ post, isBlank c = true) ∧
    cs = pre ++ inner ++ post

theorem Pads.refl (cs : List Char) : Pads cs cs :=
  ⟨[], [], by simp⟩

theorem Pads.trans {mid : List Char} (h : Pads cs mid) (h' : Pads mid inner) : Pads cs inner := by
  obtain ⟨pre, post, hpre, hpost, rfl⟩ := h
  obtain ⟨pre', post', hpre', hpost', rfl⟩ := h'
  refine ⟨pre ++ pre', post' ++ post, ?_, ?_, ?_⟩
  · exact List.forall_mem_append.mpr ⟨hpre, hpre'⟩
  · exact List.forall_mem_append.mpr ⟨hpost', hpost⟩
  · simp only [List.append_assoc]

theorem Pads.subset (h : Pads cs inner) : inner ⊆ cs := by
  obtain ⟨pre, post, -, -, rfl⟩ := h
  exact fun c hc => List.mem_append_left post (List.mem_append_right pre hc)

section Cuts

variable {p : Char → Bool}

theorem pads_dropWhile (hp : ∀ c, p c = true → isBlank c = true) (cs : List Char) :
    Pads cs (cs.dropWhile p) := by
  refine ⟨cs.takeWhile p, [], fun c hc => hp c ?_, by simp, ?_⟩
  · exact List.all_eq_true.mp List.all_takeWhile c hc
  · rw [List.append_nil, List.takeWhile_append_dropWhile]

theorem pads_dropEndWhile (hp : ∀ c, p c = true → isBlank c = true) (cs : List Char) :
    Pads cs (dropEndWhile p cs) := by
  refine ⟨[], (cs.reverse.takeWhile p).reverse, by simp, fun c hc => hp c ?_, ?_⟩
  · exact List.all_eq_true.mp List.all_takeWhile c (List.mem_reverse.mp hc)
  · rw [List.nil_append, dropEndWhile, ← List.reverse_append, List.takeWhile_append_dropWhile,
      List.reverse_reverse]

theorem pads_dropEnd {c : Char} (h : c ∉ cs) : Pads cs (dropEnd c cs) := by
  rw [dropEnd, if_neg fun hlast => h (List.mem_of_getLast? hlast)]
  exact Pads.refl cs

end Cuts

theorem pads_trimStart (cs : List Char) : Pads cs (trimStart cs) :=
  pads_dropWhile (fun _ h => h) cs

theorem pads_trim (cs : List Char) : Pads cs (trim cs) :=
  (pads_trimStart cs).trans (pads_dropEndWhile (fun _ h => h) _)

/-- A text whose ends are no blanks is its own `trim`. -/
theorem trim_cons_concat {first last : Char} (hfirst : isBlank first = false)
    (hlast : isBlank last = false) (cs : List Char) :
    trim (first :: cs ++ [last]) = first :: cs ++ [last] := by
  have hstart : trimStart (first :: cs ++ [last]) = first :: cs ++ [last] := by
    rw [trimStart, List.cons_append,
      List.dropWhile_cons_of_neg (by rw [hfirst]; exact Bool.false_ne_true)]
  rw [trim, hstart]
  exact Text.trimEnd_append_of_not_blank _ hlast

/-- **The last character that is no blank** is where it is. -/
theorem eq_of_append_blanks {front front' back back' : List Char} {c c' : Char}
    (hc : isBlank c = false) (hc' : isBlank c' = false) (hback : ∀ c ∈ back, isBlank c = true)
    (hback' : ∀ c ∈ back', isBlank c = true)
    (h : front ++ [c] ++ back = front' ++ [c'] ++ back') : front = front' ∧ c = c' := by
  have htrim := congrArg trimEnd h
  rw [Text.trimEnd_append_blanks hback, Text.trimEnd_append_blanks hback',
    Text.trimEnd_append_of_not_blank _ hc, Text.trimEnd_append_of_not_blank _ hc'] at htrim
  obtain ⟨hfront, hlast⟩ := List.append_inj' htrim rfl
  exact ⟨hfront, (List.cons.inj hlast).1⟩

/-- A word without blanks has none, however it is spelled. -/
theorem Text.isBlank_eq_false_of_sameLetters {word w : List Char}
    (h : sameLetters word w = true) (hword : ∀ c ∈ word.map Char.toLower, isBlank c = false) :
    ∀ c ∈ w, isBlank c = false := by
  intro c hc
  have hlower : c.toLower ∈ word.map Char.toLower := by
    rw [eq_of_beq h]
    exact List.mem_map_of_mem hc
  rw [← Bool.not_eq_true]
  intro hblank
  rw [toLower_of_isBlank hblank] at hlower
  rw [hword c hlower] at hblank
  cases hblank

theorem isBlank_of_isSpaceOrTab {c : Char} (h : isSpaceOrTab c = true) : isBlank c = true := by
  simp only [isSpaceOrTab, Bool.or_eq_true, beq_iff_eq] at h
  rcases h with rfl | rfl <;> rfl

theorem isQuote_iff {q : Char} : isQuote q = true ↔ q = '"' ∨ q = '\'' := by
  simp [isQuote]

theorem isBlank_eq_false_of_isQuote {q : Char} (h : isQuote q = true) : isBlank q = false := by
  rcases isQuote_iff.mp h with rfl | rfl <;> rfl

theorem isSpaceOrTab_eq_false_of_isQuote {q : Char} (h : isQuote q = true) :
    isSpaceOrTab q = false := by
  rcases isQuote_iff.mp h with rfl | rfl <;> rfl

/-! ### The end of an argument -/

/-- The argument is the text, blanks around it and perhaps one parenthesis at its end aside. -/
def Closes (cs argument : List Char) : Prop :=
  Pads cs argument ∨ ∃ inner, Pads cs (inner ++ [')']) ∧ Pads inner argument

theorem Closes.subset {argument : List Char} (h : Closes cs argument) : argument ⊆ cs := by
  rcases h with h | ⟨inner, h, h'⟩
  · exact h.subset
  · exact fun c hc => h.subset (List.mem_append_left [')'] (h'.subset hc))

/-- Where there is no parenthesis, none is cut off. -/
theorem Closes.pads {argument : List Char} (h : Closes cs argument) (hclose : ')' ∉ cs) :
    Pads cs argument := by
  rcases h with h | ⟨inner, h, -⟩
  · exact h
  · exact absurd (h.subset (List.mem_append_right inner (List.mem_singleton_self ')'))) hclose

theorem Closes.of_pads {mid argument : List Char} (h : Pads cs mid) (h' : Closes mid argument) :
    Closes cs argument := by
  rcases h' with h' | ⟨inner, hinner, h'⟩
  · exact Or.inl (h.trans h')
  · exact Or.inr ⟨inner, h.trans hinner, h'⟩

theorem Closes.trans_pads {mid argument : List Char} (h : Closes cs mid) (h' : Pads mid argument) :
    Closes cs argument := by
  rcases h with h | ⟨inner, hinner, h⟩
  · exact Or.inl (h.trans h')
  · exact Or.inr ⟨inner, hinner, h.trans h'⟩

theorem closes_dropLast (h : cs.getLast? = some ')') : Closes cs cs.dropLast := by
  refine Or.inr ⟨cs.dropLast, ?_, Pads.refl _⟩
  rw [List.dropLast_append_getLast? _ h]
  exact Pads.refl cs

theorem closes_closeArgument (cs : List Char) : Closes cs (closeArgument cs) := by
  refine Closes.of_pads (pads_dropEndWhile (fun _ h => h) cs) ?_
  show Closes (trimEnd cs) (closeArgument cs)
  unfold closeArgument
  split
  · rename_i hlast
    split
    · exact Or.inl (Pads.refl _)
    · exact closes_dropLast hlast
  · exact Or.inl (Pads.refl _)

theorem dropEndWhile_concat_of_pos {p : Char → Bool} {c : Char} (h : p c = true)
    (cs : List Char) : dropEndWhile p (cs ++ [c]) = dropEndWhile p cs := by
  rw [dropEndWhile, List.reverse_append, List.reverse_singleton, List.singleton_append,
    List.dropWhile_cons_of_pos h]
  rfl

theorem dropEndWhile_concat_of_neg {p : Char → Bool} {c : Char} (h : p c = false)
    (cs : List Char) : dropEndWhile p (cs ++ [c]) = cs ++ [c] := by
  rw [dropEndWhile, List.reverse_append, List.reverse_singleton, List.singleton_append,
    List.dropWhile_cons_of_neg (by rw [h]; exact Bool.false_ne_true), List.reverse_cons,
    List.reverse_reverse]

/-- What may stand behind the argument of a directive on its line. -/
def lineEndings : List (List Char) :=
  [[], ['\r'], [';'], [';', '\r']]

theorem closes_closeLine {ending : List Char} (hsemicolon : ';' ∉ cs)
    (hending : ending ∈ lineEndings) : Closes cs (closeLine (cs ++ ending)) := by
  have hreturn : ∀ c, (isSpaceOrTab c || c == '\r') = true → isBlank c = true := by
    intro c hc
    rw [Bool.or_eq_true, beq_iff_eq] at hc
    rcases hc with hc | rfl
    · exact isBlank_of_isSpaceOrTab hc
    · rfl
  have hspace : ∀ c, isSpaceOrTab c = true → isBlank c = true := fun _ => isBlank_of_isSpaceOrTab
  -- The semicolon of the line is the only one, and without it none is cut off.
  have hnone : Pads cs (dropEnd ';' (dropEndWhile (fun c => isSpaceOrTab c || c == '\r') cs)) := by
    have hfirst := pads_dropEndWhile hreturn cs
    exact hfirst.trans (pads_dropEnd fun hmem => hsemicolon (hfirst.subset hmem))
  have hone : dropEnd ';' (cs ++ [';']) = cs := by
    rw [dropEnd, List.getLast?_concat, if_pos rfl, List.dropLast_concat]
  have hmid : Pads cs
      (dropEnd ';' (dropEndWhile (fun c => isSpaceOrTab c || c == '\r') (cs ++ ending))) := by
    simp only [lineEndings, List.mem_cons, List.not_mem_nil, or_false] at hending
    rcases hending with rfl | rfl | rfl | rfl
    · rw [List.append_nil]
      exact hnone
    · rw [dropEndWhile_concat_of_pos rfl]
      exact hnone
    · rw [dropEndWhile_concat_of_neg rfl, hone]
      exact Pads.refl cs
    · have hcut : cs ++ [';', '\r'] = cs ++ [';'] ++ ['\r'] := by simp
      rw [hcut, dropEndWhile_concat_of_pos rfl, dropEndWhile_concat_of_neg rfl, hone]
      exact Pads.refl cs
  have hclose : ∀ body, Closes body (dropEnd ')' body) := by
    intro body
    unfold dropEnd
    split
    · rename_i hlast
      exact closes_dropLast hlast
    · exact Or.inl (Pads.refl body)
  have hbody := hmid.trans (pads_dropEndWhile hspace _)
  exact (Closes.of_pads hbody (hclose _)).trans_pads (pads_dropEndWhile hspace _)

/-! ### Arguments -/

theorem afterUrl?_eq_none (gap : Char → Bool) (h : '(' ∉ cs) : afterUrl? gap cs = none := by
  unfold afterUrl?
  split
  · rfl
  · rename_i rest hrest
    obtain ⟨w, -, rfl⟩ := Text.dropWord?_eq_some_iff.mp hrest
    split
    · rename_i inner hinner
      have hmem : '(' ∈ rest.dropWhile gap := by
        rw [hinner]
        exact List.mem_cons_self
      exact absurd (List.mem_append_right w ((List.dropWhile_suffix gap).subset hmem)) h
    · rfl

/-- **An argument without parentheses** is taken as it is, blanks at its ends aside. -/
theorem bracesArgument_eq (hopen : '(' ∉ cs) (hclose : ')' ∉ cs) :
    bracesArgument cs = some (trim cs) := by
  have hopen' : '(' ∉ trimStart cs := fun hmem => hopen ((pads_trimStart cs).subset hmem)
  have hclosed : closeArgument (trimStart cs) = trim cs := by
    unfold closeArgument
    split
    · rename_i hlast
      have hmem : ')' ∈ trim cs := List.mem_of_getLast? hlast
      exact absurd ((pads_trim cs).subset hmem) hclose
    · rfl
  unfold bracesArgument
  dsimp only
  rw [afterUrl?_eq_none isBlank hopen']
  dsimp only
  split
  · rename_i c rest hbody
    rw [hbody] at hopen'
    exact absurd List.mem_cons_self hopen'
  · rw [hclosed]

/-! ### The syntax with braces -/

/-- The argument of the directive in a part of the text, if there is one. -/
def partArgument? (part : List Char) : Option (List Char) :=
  (Text.afterWord? importWord part).bind bracesArgument

/-- A word that was found stands somewhere in the text. -/
theorem Text.exists_of_afterWord? {sought : List Char} (h : afterWord? sought cs = some rest) :
    ∃ front word, sameLetters sought word = true ∧ cs = front ++ (word ++ rest) := by
  induction cs with
  | nil =>
    obtain ⟨word, hword, heq⟩ := dropWord?_eq_some_iff.mp h
    exact ⟨[], word, hword, heq⟩
  | cons c cs ih =>
    unfold afterWord? at h
    split at h
    · rename_i found hfound
      cases h
      obtain ⟨word, hword, heq⟩ := dropWord?_eq_some_iff.mp hfound
      exact ⟨[], word, hword, heq⟩
    · obtain ⟨front, word, hword, rfl⟩ := ih h
      exact ⟨c :: front, word, hword, rfl⟩

/-- The argument of a part follows a word in it. -/
theorem exists_of_partArgument? {part argument : List Char}
    (h : partArgument? part = some argument) :
    ∃ front word back, sameLetters importWord word = true ∧ part = front ++ (word ++ back) := by
  obtain ⟨back, hback, -⟩ := Option.bind_eq_some_iff.mp h
  obtain ⟨front, word, hword, hpart⟩ := Text.exists_of_afterWord? hback
  exact ⟨front, word, back, hword, hpart⟩

theorem partArgument?_nil : partArgument? [] = none := rfl

theorem partArgument?_cons {c : Char} (h : c ≠ '@') (part : List Char) :
    partArgument? (c :: part) = partArgument? part := by
  have hat : '@'.toNat < 'A'.toNat := by decide
  have hdrop : Text.dropWord? importWord (c :: part) = none := by
    show (if '@'.toLower = c.toLower then _ else none) = none
    rw [if_neg]
    rw [Text.toLower_of_lt hat]
    exact fun heq => h (Text.eq_of_toLower_eq hat heq.symm)
  unfold partArgument?
  rw [Text.afterWord?, hdrop]

theorem bracesArguments_eq (cs : List Char) :
    bracesArguments cs = (cs.splitOn ';').dropLast.filterMap partArgument? := rfl

theorem bracesArguments_cons {c : Char} (h : c ≠ '@') (cs : List Char) :
    bracesArguments (c :: cs) = bracesArguments cs := by
  rw [bracesArguments_eq, bracesArguments_eq, List.splitOn_cons_eq_if_modifyHead]
  obtain ⟨part, parts, hparts⟩ := List.exists_cons_of_ne_nil (List.splitOn_ne_nil ';' cs)
  rw [hparts]
  split
  · rw [List.dropLast_cons_of_ne_nil (List.cons_ne_nil part parts), List.filterMap_cons,
      partArgument?_nil]
  · cases parts with
    | nil => rfl
    | cons next parts =>
      rw [List.modifyHead_cons, List.dropLast_cons_of_ne_nil (List.cons_ne_nil next parts),
        List.dropLast_cons_of_ne_nil (List.cons_ne_nil next parts), List.filterMap_cons,
        List.filterMap_cons, partArgument?_cons h]

/-- **Text without an at sign** is passed over. -/
theorem bracesArguments_append (h : '@' ∉ pre) (cs : List Char) :
    bracesArguments (pre ++ cs) = bracesArguments cs := by
  induction pre with
  | nil => rfl
  | cons c pre ih =>
    rw [List.mem_cons, not_or] at h
    rw [List.cons_append, bracesArguments_cons (Ne.symm h.1), ih h.2]

theorem dropWord?_importWord (hword : sameLetters importWord word = true) (rest : List Char) :
    Text.dropWord? importWord (word ++ rest) = some rest :=
  Text.dropWord?_eq_some_iff.mpr ⟨word, hword, rfl⟩

/-- The word is spelled with its at sign. -/
theorem exists_cons_of_importWord (hword : sameLetters importWord word = true) :
    ∃ letters, word = '@' :: letters :=
  Text.exists_cons_of_sameLetters (by decide) hword

/-- **A directive is read up to its semicolon**, and the text behind it is read on. -/
theorem bracesArguments_word {argument : List Char} (hword : sameLetters importWord word = true)
    (hsemicolon : ';' ∉ body) (hargument : bracesArgument body = some argument)
    (rest : List Char) :
    bracesArguments (word ++ body ++ ';' :: rest) = argument :: bracesArguments rest := by
  have hnone : ';' ∉ word ++ body := by
    rw [List.mem_append, not_or]
    exact ⟨Text.notMem_of_sameLetters hword (by decide), hsemicolon⟩
  have hpart : partArgument? (word ++ body) = some argument := by
    obtain ⟨letters, rfl⟩ := exists_cons_of_importWord hword
    have hafter : Text.afterWord? importWord ('@' :: letters ++ body) = some body := by
      rw [List.cons_append, Text.afterWord?, ← List.cons_append, dropWord?_importWord hword]
    rw [partArgument?, hafter, Option.bind_some, hargument]
  rw [bracesArguments_eq, bracesArguments_eq, List.splitOn_append_cons_self_of_not_mem hnone,
    List.dropLast_cons_of_ne_nil (List.splitOn_ne_nil ';' rest), List.filterMap_cons, hpart]

/-- A directive without parentheses gives its argument as it is. -/
theorem bracesArguments_directive (hword : sameLetters importWord word = true)
    (hsemicolon : ';' ∉ body) (hopen : '(' ∉ body) (hclose : ')' ∉ body) (rest : List Char) :
    bracesArguments (word ++ body ++ ';' :: rest) = trim body :: bracesArguments rest :=
  bracesArguments_word hword hsemicolon (bracesArgument_eq hopen hclose) rest

/-! ### The indented syntax -/

/-- **Two texts with a newline between them** are read one after the other. -/
theorem indentedArguments_append (cs rest : List Char) :
    indentedArguments (cs ++ '\n' :: rest) = indentedArguments cs ++ indentedArguments rest := by
  rw [indentedArguments, List.splitOn_append_cons_self, List.filterMap_append]
  rfl

/-- A line that is a directive begins with the word, spaces and tabs aside. -/
theorem exists_of_lineArgument? {line argument : List Char}
    (h : lineArgument? line = some argument) :
    ∃ indent word back, (∀ c ∈ indent, isSpaceOrTab c = true) ∧
      sameLetters importWord word = true ∧ line = indent ++ (word ++ back) := by
  unfold lineArgument? at h
  split at h
  · cases h
  · rename_i back hback
    obtain ⟨word, hword, hline⟩ := Text.dropWord?_eq_some_iff.mp hback
    refine ⟨line.takeWhile isSpaceOrTab, word, back, ?_, hword, ?_⟩
    · exact fun c hc => List.all_eq_true.mp List.all_takeWhile c hc
    · rw [← hline, List.takeWhile_append_dropWhile]

theorem lineArgument?_eq_none (h : '@' ∉ cs) : lineArgument? cs = none := by
  have hline : '@' ∉ cs.dropWhile isSpaceOrTab := fun hmem =>
    h ((List.dropWhile_suffix isSpaceOrTab).subset hmem)
  rw [lineArgument?, Text.dropWord?_eq_none (m := '@') (by decide) (by decide) hline]

/-- Text without an at sign is passed over. -/
theorem indentedArguments_eq_nil (h : '@' ∉ cs) : indentedArguments cs = [] := by
  rw [indentedArguments, List.filterMap_eq_nil_iff]
  intro line hline
  exact lineArgument?_eq_none fun hmem => h (Text.subset_of_mem_splitOn hline hmem)

section Lines

variable {indent gap ending : List Char}

/-- **A line that is a directive** gives its argument, unless that is a `url(...)`. -/
theorem exists_lineArgument (hindent : ∀ c ∈ indent, isSpaceOrTab c = true)
    (hword : sameLetters importWord word = true) (hgap : ∀ c ∈ gap, isSpaceOrTab c = true)
    (hgap_ne : gap ≠ [])
    (hurl : afterUrl? isSpaceOrTab (body.dropWhile isSpaceOrTab ++ ending) = none)
    (hsemicolon : ';' ∉ body) (hreturn : '\r' ∉ body) (hending : ending ∈ lineEndings) :
    ∃ argument, lineArgument? (indent ++ (word ++ (gap ++ (body ++ ending)))) = some argument ∧
      Closes body argument := by
  have hspace : ∀ c, isSpaceOrTab c = true → isBlank c = true := fun _ => isBlank_of_isSpaceOrTab
  have hstart := pads_dropWhile hspace body
  have hcloses : Closes body (closeLine (body.dropWhile isSpaceOrTab ++ ending)) :=
    Closes.of_pads hstart (closes_closeLine (fun hmem => hsemicolon (hstart.subset hmem)) hending)
  refine ⟨closeLine (body.dropWhile isSpaceOrTab ++ ending), ?_, hcloses⟩
  have hline : (indent ++ (word ++ (gap ++ (body ++ ending)))).dropWhile isSpaceOrTab
      = word ++ (gap ++ (body ++ ending)) := by
    obtain ⟨letters, rfl⟩ := exists_cons_of_importWord hword
    rw [List.dropWhile_append_of_pos hindent]
    rfl
  have hhead : (gap ++ (body ++ ending)).head?.any isSpaceOrTab = true := by
    cases gap with
    | nil => exact absurd rfl hgap_ne
    | cons c gap => exact hgap c List.mem_cons_self
  -- The end of the line is no blank of the argument, even if nothing else is left of it.
  have hargument : (gap ++ (body ++ ending)).dropWhile isSpaceOrTab
      = body.dropWhile isSpaceOrTab ++ ending := by
    have hnone : ending.dropWhile isSpaceOrTab = ending := by
      simp only [lineEndings, List.mem_cons, List.not_mem_nil, or_false] at hending
      rcases hending with rfl | rfl | rfl | rfl <;> rfl
    rw [List.dropWhile_append_of_pos hgap, List.dropWhile_append]
    split
    · rename_i hempty
      rw [List.isEmpty_iff.mp hempty, hnone]
      rfl
    · rfl
  have hno : (closeLine (body.dropWhile isSpaceOrTab ++ ending)).contains '\r' = false := by
    rw [List.contains_eq_mem, decide_eq_false_iff_not]
    exact fun hmem => hreturn (hcloses.subset hmem)
  rw [lineArgument?, hline, dropWord?_importWord hword]
  dsimp only
  rw [if_neg (by rw [hhead]; exact Bool.noConfusion), hargument, hurl, hno]
  rfl

/-- A text that is one such line has no other argument. -/
theorem exists_indentedArguments (hindent : ∀ c ∈ indent, isSpaceOrTab c = true)
    (hword : sameLetters importWord word = true) (hgap : ∀ c ∈ gap, isSpaceOrTab c = true)
    (hgap_ne : gap ≠ [])
    (hurl : afterUrl? isSpaceOrTab (body.dropWhile isSpaceOrTab ++ ending) = none)
    (hsemicolon : ';' ∉ body) (hnewline : '\n' ∉ body) (hreturn : '\r' ∉ body)
    (hending : ending ∈ lineEndings) :
    ∃ argument, indentedArguments (indent ++ (word ++ (gap ++ (body ++ ending)))) = [argument] ∧
      Closes body argument := by
  obtain ⟨argument, hargument, hcloses⟩ :=
    exists_lineArgument hindent hword hgap hgap_ne hurl hsemicolon hreturn hending
  refine ⟨argument, ?_, hcloses⟩
  have hspace : ∀ c, isSpaceOrTab c = true → c ≠ '\n' := by
    rintro c hc rfl
    exact absurd hc (by decide)
  have hends : ∀ ending ∈ lineEndings, '\n' ∉ ending := by decide
  have hline : '\n' ∉ indent ++ (word ++ (gap ++ (body ++ ending))) := by
    simp only [List.mem_append, not_or]
    exact ⟨fun h => hspace _ (hindent _ h) rfl, Text.notMem_of_sameLetters hword (by decide),
      fun h => hspace _ (hgap _ h) rfl, hnewline, hends ending hending⟩
  rw [indentedArguments, List.splitOn_eq_singleton hline, List.filterMap_cons, hargument]
  rfl

/-- A line without parentheses gives its argument as it is, some of the blanks around it aside. -/
theorem exists_indentedArguments_pads (hindent : ∀ c ∈ indent, isSpaceOrTab c = true)
    (hword : sameLetters importWord word = true) (hgap : ∀ c ∈ gap, isSpaceOrTab c = true)
    (hgap_ne : gap ≠ []) (hopen : '(' ∉ body) (hclose : ')' ∉ body) (hsemicolon : ';' ∉ body)
    (hnewline : '\n' ∉ body) (hreturn : '\r' ∉ body) (hending : ending ∈ lineEndings) :
    ∃ argument, indentedArguments (indent ++ (word ++ (gap ++ (body ++ ending)))) = [argument] ∧
      Pads body argument := by
  have hends : ∀ ending ∈ lineEndings, '(' ∉ ending := by decide
  have hurl : afterUrl? isSpaceOrTab (body.dropWhile isSpaceOrTab ++ ending) = none := by
    apply afterUrl?_eq_none
    rw [List.mem_append, not_or]
    exact ⟨fun hmem => hopen ((List.dropWhile_suffix isSpaceOrTab).subset hmem),
      hends ending hending⟩
  obtain ⟨argument, hargument, hcloses⟩ :=
    exists_indentedArguments hindent hword hgap hgap_ne hurl hsemicolon hnewline hreturn hending
  exact ⟨argument, hargument, hcloses.pads hclose⟩

end Lines

/-! ### Targets -/

/-- **Quotes that match** are taken off. -/
theorem stripQuotes_quoted {q : Char} (hq : isQuote q = true) (cs : List Char) :
    stripQuotes (q :: cs ++ [q]) = .ok cs := by
  have hlast : (q :: cs ++ [q]).getLast? = some q := List.getLast?_concat
  unfold stripQuotes
  dsimp only
  rw [hlast]
  simp [hq]

theorem targetOf_congr {piece piece' : List Char} (h : trim piece = trim piece') :
    targetOf piece = targetOf piece' := by
  rw [targetOf, targetOf, h]

theorem targetsOf_cons_blank {c : Char} (hc : isBlank c = true) (cs : List Char) :
    targetsOf (c :: cs) = targetsOf cs := by
  have hcomma : ¬ (c == ',') = true := by
    rw [beq_iff_eq]
    rintro rfl
    exact absurd hc (by decide)
  obtain ⟨piece, pieces, hpieces⟩ := List.exists_cons_of_ne_nil (List.splitOn_ne_nil ',' cs)
  have hpiece : targetOf (c :: piece) = targetOf piece := by
    have hblank : ∀ c' ∈ [c], isBlank c' = true := by simpa using hc
    exact targetOf_congr (Text.trim_blanks_append hblank piece)
  rw [targetsOf, targetsOf, List.splitOn_cons_eq_if_modifyHead, if_neg hcomma, hpieces,
    List.modifyHead_cons, mapM_cons_eq, mapM_cons_eq, hpiece]

theorem targetsOf_append_blank {c : Char} (hc : isBlank c = true) (cs : List Char) :
    targetsOf (cs ++ [c]) = targetsOf cs := by
  have hcomma : c ≠ ',' := by
    rintro rfl
    exact absurd hc (by decide)
  obtain ⟨pieces, last, hcs, hcsc⟩ := Text.exists_splitOn_concat hcomma cs
  have hlast : targetOf (last ++ [c]) = targetOf last :=
    targetOf_congr (Text.trim_append_blanks (by simpa using hc) last)
  rw [targetsOf, targetsOf, hcs, hcsc, mapM_append_eq, mapM_append_eq, mapM_cons_eq, mapM_cons_eq,
    hlast]

/-- **Blanks around an argument** do not count. -/
theorem Pads.targetsOf_eq (h : Pads cs inner) : targetsOf cs = targetsOf inner := by
  obtain ⟨pre, post, hpre, hpost, rfl⟩ := h
  have hstart : targetsOf (pre ++ inner) = targetsOf inner := by
    induction pre with
    | nil => rfl
    | cons c pre ih =>
      rw [List.forall_mem_cons] at hpre
      rw [List.cons_append, targetsOf_cons_blank hpre.1, ih hpre.2]
  rw [← hstart]
  generalize pre ++ inner = cs
  induction post using List.reverseRecOn with
  | nil => rw [List.append_nil]
  | append_singleton post c ih =>
    rw [List.forall_mem_append, List.forall_mem_singleton] at hpost
    rw [← List.append_assoc, targetsOf_append_blank hpost.2, ih hpost.1]

/-- **Pieces between commas** give their targets. -/
theorem targetsOf_intercalate {pieces : List (List Char)} {targets : List (Option String)}
    (hne : pieces ≠ []) (hcomma : ∀ piece ∈ pieces, ',' ∉ piece)
    (h : List.Forall₂ (fun piece target => targetOf piece = .ok target) pieces targets) :
    targetsOf ([','].intercalate pieces) = .ok (targets.filterMap id) := by
  rw [targetsOf, List.splitOn_intercalate ',' hcomma hne, mapM_eq_ok_iff.mpr h]

/-! ### Stylesheets -/

theorem imports_eq_ok_iff {mode : SyntaxMode} {text : List Char} {targets : List String} :
    imports mode text = .ok targets ↔
      ∃ lists, (directiveArguments mode (removeComments text)).mapM targetsOf = .ok lists ∧
        lists.flatten = targets := by
  unfold imports
  cases (directiveArguments mode (removeComments text)).mapM targetsOf with
  | error e => simp
  | ok lists => simp

theorem imports_eq_error_iff {mode : SyntaxMode} {text : List Char} {e : ImportError} :
    imports mode text = .error e ↔
      (directiveArguments mode (removeComments text)).mapM targetsOf = .error e := by
  unfold imports
  cases (directiveArguments mode (removeComments text)).mapM targetsOf with
  | error e => simp
  | ok lists => simp

theorem imports_eq_of_argument {mode : SyntaxMode} {text argument : List Char}
    {targets : List String} (hargument : directiveArguments mode (removeComments text) = [argument])
    (htargets : targetsOf argument = .ok targets) : imports mode text = .ok targets := by
  rw [imports_eq_ok_iff, hargument, mapM_cons_eq, htargets]
  exact ⟨[targets], rfl, List.flatten_singleton⟩

end SheetGraph
