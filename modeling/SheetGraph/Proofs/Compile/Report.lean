import Mathlib.Data.Bool.AllAny
import Mathlib.Data.List.DropRight
import Mathlib.Data.List.TakeWhile
import SheetGraph.Compile.Failure

/-!
# Reports of a compiler

A `Report` is what a Sass compiler says when it fails: a line with the message, a snippet of the
source, and a trailer for each stylesheet that was open, the innermost first.  Reading the printed
report gives the message and the place of the first trailer (`CompileError.ofReport_print`).

A trailer is found by the first word behind blanks, and blanks can run over the ends of lines.  So a
trailer can be found from a line in front of its own, if nothing but blanks is between, and that is
all that can go wrong (`trailer?_line_append`): whatever is found in front of the first trailer is
that trailer.
-/

namespace SheetGraph

open Text (isBlank isDecimalDigit trim)

/-! ### Runs of characters -/

section Runs

variable {α : Type} {p : α → Bool} {x : α} {run rest : List α}

/-- What is taken ends in front of what is not of its kind, whatever follows. -/
theorem takeWhile_append_cons (hx : p x = false) (xs rest : List α) :
    (xs ++ x :: rest).takeWhile p = xs.takeWhile p := by
  induction xs with
  | nil => exact List.takeWhile_cons_of_neg (by rw [hx]; exact Bool.false_ne_true)
  | cons y xs ih => rw [List.cons_append, List.takeWhile_cons, List.takeWhile_cons, ih]

/-- A run is taken up to the first that is not of its kind. -/
theorem takeWhile_run (hrun : ∀ a ∈ run, p a = true) (hx : p x = false) :
    (run ++ x :: rest).takeWhile p = run := by
  rw [takeWhile_append_cons hx, List.takeWhile_eq_self_iff.mpr hrun]

theorem dropWhile_run (hrun : ∀ a ∈ run, p a = true) (hx : p x = false) :
    (run ++ x :: rest).dropWhile p = x :: rest := by
  rw [List.dropWhile_append_of_pos hrun,
    List.dropWhile_cons_of_neg (by rw [hx]; exact Bool.false_ne_true)]

end Runs

/-! ### Numbers -/

namespace Text

theorem isBlank_eq_false_of_isDigit {c : Char} (h : c.isDigit = true) : isBlank c = false := by
  simp only [Char.isDigit, Bool.and_eq_true, decide_eq_true_eq] at h
  have hlow : 48 ≤ c.toNat := h.1
  have hhigh : c.toNat ≤ 57 := h.2
  simp only [isBlank, Bool.or_eq_false_iff, Bool.and_eq_false_iff, decide_eq_false_iff_not,
    beq_eq_false_iff_ne]
  omega

/-- Blanks are dropped in front of a word. -/
theorem dropWhile_isBlank_append {pre word : List Char} (hpre : ∀ c ∈ pre, isBlank c = true)
    (hne : word ≠ []) (hword : ∀ c ∈ word, isBlank c = false) (rest : List Char) :
    (pre ++ (word ++ rest)).dropWhile isBlank = word ++ rest := by
  obtain ⟨first, more, rfl⟩ := List.exists_cons_of_ne_nil hne
  exact dropWhile_run hpre (hword first List.mem_cons_self)

theorem isBlank_eq_false_of_mem_toDigits {n : Nat} {c : Char} (h : c ∈ Nat.toDigits 10 n) :
    isBlank c = false :=
  isBlank_eq_false_of_isDigit (Nat.isDigit_of_mem_toDigits (by decide) (by decide) h)

/-- The number that digits write. -/
theorem readNat?_of_isDigit {cs : List Char} (hne : cs ≠ []) (h : ∀ c ∈ cs, c.isDigit = true) :
    readNat? cs = some (Nat.ofDigitChars 10 cs 0) := by
  have hfold : ∀ (cs : List Char) (n : Nat), (∀ c ∈ cs, c.isDigit = true) →
      cs.foldl (fun acc c => acc.bind fun n =>
        if c.isDigit then some (10 * n + (c.toNat - 48)) else none) (some n)
        = some (Nat.ofDigitChars 10 cs n) := by
    intro cs
    induction cs with
    | nil => exact fun n _ => rfl
    | cons c cs ih =>
      intro n h
      rw [List.forall_mem_cons] at h
      rw [List.foldl_cons, Option.bind_some, if_pos h.1, ih _ h.2, Nat.ofDigitChars_cons]
      rfl
  rw [readNat?]
  · exact hfold cs 0 h
  · exact hne

/-- **A number is read back** from its decimal digits, if it has 64 bits. -/
theorem readNat64?_toDigits {n : Nat} (h : n < 18446744073709551616) :
    readNat64? (Nat.toDigits 10 n) = some n := by
  have hdigits : ∀ c ∈ Nat.toDigits 10 n, c.isDigit = true := fun c hc =>
    Nat.isDigit_of_mem_toDigits (by decide) (by decide) hc
  rw [readNat64?, readNat?_of_isDigit Nat.toDigits_ne_nil hdigits,
    Nat.ofDigitChars_toDigits (by decide) (by decide), Option.filter_some,
    if_pos (by simpa using h)]

end Text

namespace CompileError

/-- The digits of a number are taken up to what is no digit. -/
theorem digitRun?_toDigits (n : Nat) {c : Char} (hc : isDecimalDigit c = false)
    (rest : List Char) :
    digitRun? (Nat.toDigits 10 n ++ c :: rest) = some (Nat.toDigits 10 n, c :: rest) := by
  have hdigits : ∀ c ∈ Nat.toDigits 10 n, isDecimalDigit c = true := fun c hc =>
    Text.isDecimalDigit_of_isDigit (Nat.isDigit_of_mem_toDigits (by decide) (by decide) hc)
  obtain ⟨first, more, hfirst⟩ :=
    List.exists_cons_of_ne_nil (Nat.toDigits_ne_nil (b := 10) (n := n))
  rw [digitRun?, takeWhile_run hdigits hc, dropWhile_run hdigits hc, hfirst]

end CompileError

/-! ### Reports -/

/-- The endings of the names of stylesheets. -/
def sheetEndings : List String := [".scss", ".sass", ".css"]

/-- The first word of a line. -/
def firstWord (line : List Char) : List Char :=
  (line.dropWhile isBlank).takeWhile fun c => !isBlank c

/-- A place in a stylesheet that was open when the compiler failed. -/
structure Trailer where
  /-- The path of the stylesheet up to its ending. -/
  stem : List Char
  ending : String
  line : Nat
  column : Nat
  /-- What the stylesheet was open for. -/
  frame : List Char
  stem_ne_nil : stem ≠ []
  stem_solid : ∀ c ∈ stem, isBlank c = false
  ending_mem : ending ∈ sheetEndings
  line_lt : line < 18446744073709551616
  column_lt : column < 18446744073709551616

namespace Trailer

/-- The path of the stylesheet. -/
def file (t : Trailer) : List Char :=
  t.stem ++ t.ending.toList

/-- The line of a report that tells the place. -/
def print (t : Trailer) : List Char :=
  "  ".toList ++ t.file ++ ' ' :: (Nat.toDigits 10 t.line ++ ':' :: (Nat.toDigits 10 t.column ++
    "  ".toList ++ t.frame))

/-- What reading the line finds: the path, and the digits of the two numbers. -/
def groups (t : Trailer) : List Char × List Char × List Char :=
  (t.file, Nat.toDigits 10 t.line, Nat.toDigits 10 t.column)

end Trailer

/-- What a compiler says when it fails. -/
structure Report where
  message : List Char
  snippet : List (List Char)
  trailers : List Trailer
  message_ne_nil : message ≠ []
  message_trim : trim message = message
  message_line : '\n' ∉ message
  snippet_line : ∀ line ∈ snippet, '\n' ∉ line
  /-- No line of the snippet begins like a trailer. -/
  snippet_word : ∀ line ∈ snippet, ∀ ending ∈ sheetEndings, ¬ ending.toList <:+ firstWord line

namespace Report

/-- The text of the report. -/
def print (r : Report) : List Char :=
  ['\n'].intercalate
    (("Error: ".toList ++ r.message) :: (r.snippet ++ r.trailers.map Trailer.print))

/-- The error that the report tells about, in a compilation of `source`. -/
def error (r : Report) (source : Path) : CompileError :=
  match r.trailers with
  | [] => { file := source, message := String.ofList r.message }
  | t :: _ =>
    { file := Path.ofChars t.file, line := some t.line, column := some t.column,
      message := String.ofList r.message }

end Report

/-! ### Trailers -/

namespace Trailer

variable (t : Trailer)

theorem solid : ∀ c ∈ t.file, isBlank c = false := by
  have hendings : ∀ ending ∈ sheetEndings, ending.toList.all (fun c => !isBlank c) = true := by
    decide
  refine List.forall_mem_append.mpr ⟨t.stem_solid, fun c hc => ?_⟩
  simpa using List.all_eq_true.mp (hendings t.ending t.ending_mem) c hc

theorem isSheetName_file : CompileError.isSheetName t.file = true := by
  rw [CompileError.isSheetName, List.any_eq_true]
  refine ⟨t.ending, t.ending_mem, ?_⟩
  have hlength := List.length_pos_iff.mpr t.stem_ne_nil
  rw [Bool.and_eq_true, List.isSuffixOf_iff_suffix, decide_eq_true_eq, file, List.length_append]
  exact ⟨List.suffix_append t.stem t.ending.toList, by omega⟩

/-- **A trailer is found** behind blanks, whatever follows it. -/
theorem trailer?_print {pre : List Char} (hpre : ∀ c ∈ pre, isBlank c = true) (rest : List Char) :
    CompileError.trailer? (pre ++ t.print ++ rest) = some t.groups := by
  generalize htail : ' ' :: (t.frame ++ rest) = tail
  generalize hcolumn : Nat.toDigits 10 t.column ++ ' ' :: tail = column
  generalize hnumbers : Nat.toDigits 10 t.line ++ ':' :: column = numbers
  -- The parts of the trailer are named from the end, since each is read up to the next.
  have hshape : pre ++ t.print ++ rest = pre ++ [' ', ' '] ++ (t.file ++ ' ' :: numbers) := by
    rw [← hnumbers, ← hcolumn, ← htail, print]
    simp
  have hpads : ∀ c ∈ pre ++ [' ', ' '], isBlank c = true :=
    List.forall_mem_append.mpr ⟨hpre, List.all_eq_true.mp (by decide)⟩
  have hhead : (pre ++ t.print ++ rest).head?.any isBlank = true := by
    rw [hshape]
    cases pre with
    | nil => rfl
    | cons c pre => exact hpre c List.mem_cons_self
  have hbody : (pre ++ t.print ++ rest).dropWhile isBlank = t.file ++ ' ' :: numbers := by
    have hne : t.file ≠ [] := List.append_ne_nil_of_left_ne_nil t.stem_ne_nil t.ending.toList
    rw [hshape, Text.dropWhile_isBlank_append hpads hne t.solid]
  have hsolid : ∀ c ∈ t.file, (!isBlank c) = true := fun c hc => by rw [t.solid c hc]; rfl
  have hword : (t.file ++ ' ' :: numbers).takeWhile (fun c => !isBlank c) = t.file :=
    takeWhile_run hsolid rfl
  have hrest : (t.file ++ ' ' :: numbers).dropWhile (fun c => !isBlank c) = ' ' :: numbers :=
    dropWhile_run hsolid rfl
  have hgap : (' ' :: numbers).dropWhile isBlank = numbers := by
    have hspace : ∀ c ∈ [' '], isBlank c = true := List.all_eq_true.mp (by decide)
    rw [← hnumbers]
    exact Text.dropWhile_isBlank_append hspace Nat.toDigits_ne_nil
      (fun c => Text.isBlank_eq_false_of_mem_toDigits) (':' :: column)
  have hline : CompileError.digitRun? numbers = some (Nat.toDigits 10 t.line, ':' :: column) := by
    rw [← hnumbers]
    exact CompileError.digitRun?_toDigits t.line (by decide) column
  have hcolumn : CompileError.digitRun? column = some (Nat.toDigits 10 t.column, ' ' :: tail) := by
    rw [← hcolumn]
    exact CompileError.digitRun?_toDigits t.column (by decide) tail
  rw [CompileError.trailer?, hhead, if_neg (by decide)]
  dsimp only
  rw [hbody, hword, hrest, hgap, t.isSheetName_file, if_neg (by decide), hline]
  simp only [hcolumn]
  rfl

end Trailer

/-! ### Lines in front of a trailer -/

namespace CompileError

variable {line rest : List Char}

theorem isSheetName_eq_false {word : List Char}
    (h : ∀ ending ∈ sheetEndings, ¬ ending.toList <:+ word) : isSheetName word = false := by
  rw [isSheetName, List.any_eq_false]
  intro ending hending
  rw [Bool.and_eq_true, List.isSuffixOf_iff_suffix, not_and]
  exact fun hsuffix => absurd hsuffix (h ending hending)

/-- From blanks in front of other blanks the same is found. -/
theorem trailer?_append_of_blank {b : Char} (hline : ∀ c ∈ b :: line, isBlank c = true)
    (hrest : rest.head?.any isBlank = true) : trailer? (b :: line ++ rest) = trailer? rest := by
  have hdrop : (b :: line ++ rest).dropWhile isBlank = rest.dropWhile isBlank :=
    List.dropWhile_append_of_pos hline
  have hhead : (b :: line ++ rest).head?.any isBlank = true := hline b List.mem_cons_self
  rw [trailer?, trailer?, hhead, hrest, hdrop]

/-- No trailer is found from where the first word does not name a stylesheet. -/
theorem trailer?_eq_none {cs : List Char} (h : isSheetName (firstWord cs) = false) :
    trailer? cs = none := by
  rw [firstWord] at h
  rw [trailer?]
  split
  · rfl
  · dsimp only
    rw [h]
    rfl

/-- The first word of a line ends on the line. -/
theorem firstWord_append (hline : line.dropWhile isBlank ≠ [])
    (hrest : ∀ c ∈ rest.head?, c = '\n') : firstWord (line ++ rest) = firstWord line := by
  have hne : ¬ ((line.dropWhile isBlank).isEmpty = true) := by
    rwa [List.isEmpty_iff]
  rw [firstWord, firstWord, List.dropWhile_append, if_neg hne]
  cases rest with
  | nil => rw [List.append_nil]
  | cons c rest =>
    rw [hrest c rfl]
    exact takeWhile_append_cons rfl _ rest

/-- **A trailer that is found from a line without one** is found from the line behind it. -/
theorem trailer?_line_append
    (hword : ∀ ending ∈ sheetEndings, ¬ ending.toList <:+ firstWord line)
    (hrest : ∀ c ∈ rest.head?, c = '\n') :
    trailer? (line ++ rest) = none ∨ trailer? (line ++ rest) = trailer? rest := by
  by_cases hbody : line.dropWhile isBlank = []
  · -- There are nothing but blanks on the line.
    have hblank := List.dropWhile_eq_nil_iff.mp hbody
    cases line with
    | nil => exact Or.inr rfl
    | cons b line =>
      cases rest with
      | nil =>
        left
        apply trailer?_eq_none
        rw [List.append_nil]
        exact isSheetName_eq_false hword
      | cons c rest =>
        right
        rw [hrest c rfl]
        exact trailer?_append_of_blank hblank rfl
  · left
    apply trailer?_eq_none
    rw [firstWord_append hbody hrest]
    exact isSheetName_eq_false hword

/-- At the start of a line a trailer is looked for, and then in the rest of the text. -/
theorem firstTrailer?_true (cs : List Char) :
    firstTrailer? true cs = (trailer? cs).or (firstTrailer? false cs) := by
  cases cs with
  | nil => rfl
  | cons c cs =>
    rw [firstTrailer?, firstTrailer?, if_pos rfl, if_neg Bool.false_ne_true]
    cases trailer? (c :: cs) <;> rfl

theorem firstTrailer?_newline (cs : List Char) :
    firstTrailer? false ('\n' :: cs) = firstTrailer? true cs := rfl

/-- Within a line none is looked for. -/
theorem firstTrailer?_false_append (hline : '\n' ∉ line) (rest : List Char) :
    firstTrailer? false (line ++ rest) = firstTrailer? false rest := by
  induction line with
  | nil => rfl
  | cons c line ih =>
    rw [List.mem_cons, not_or] at hline
    have hc : (c == '\n') = false := by simpa using Ne.symm hline.1
    rw [List.cons_append, firstTrailer?, if_neg Bool.false_ne_true, hc]
    exact ih hline.2

end CompileError

/-! ### Reading a report -/

namespace Text

/-- Nothing is cut from the front of a text that ends in no blank. -/
theorem trimEnd_append {cs : List Char} (h : trimEnd cs ≠ []) (pre : List Char) :
    trimEnd (pre ++ cs) = pre ++ trimEnd cs := by
  have hne : ¬ ((cs.reverse.dropWhile isBlank).isEmpty = true) := by
    rw [List.isEmpty_iff]
    exact fun hnil => h (by rw [trimEnd, hnil, List.reverse_nil])
  rw [trimEnd, trimEnd, List.reverse_append, List.dropWhile_append, if_neg hne,
    List.reverse_append, List.reverse_reverse]

theorem trimEnd_trimEnd (cs : List Char) : trimEnd (trimEnd cs) = trimEnd cs := by
  rw [trimEnd, trimEnd, List.reverse_reverse, List.dropWhile_idempotent]

theorem trim_dropCarriageReturn (line : List Char) :
    trim (dropCarriageReturn line) = trim line := by
  rw [dropCarriageReturn]
  split
  · rename_i hlast
    obtain ⟨front, rfl⟩ := List.getLast?_eq_some_iff.mp hlast
    rw [List.dropLast_concat, trim_append_blanks (List.all_eq_true.mp (by decide))]
  · rfl

/-- The first line of a text, trimmed. -/
theorem head?_lines {line : List Char} (hne : line ≠ []) (hline : '\n' ∉ line)
    {rest : List Char} (hrest : ∀ c ∈ rest.head?, c = '\n') :
    (lines (line ++ rest)).head?.map trim = some (trim line) := by
  cases rest with
  | nil =>
    rw [List.append_nil, lines, List.splitOn_eq_singleton hline]
    obtain ⟨c, cs, rfl⟩ := List.exists_cons_of_ne_nil hne
    rfl
  | cons c rest =>
    have hc : c = '\n' := hrest c rfl
    subst hc
    obtain ⟨piece, pieces, hpieces⟩ := List.exists_cons_of_ne_nil (List.splitOn_ne_nil '\n' rest)
    have hlines : (lines (line ++ '\n' :: rest)).head? = some (dropCarriageReturn line) := by
      rw [lines, List.splitOn_append_cons_self_of_not_mem hline, hpieces]
      split <;> rfl
    rw [hlines, Option.map_some, trim_dropCarriageReturn]

end Text

namespace Report

open CompileError

variable (r : Report)

/-- What follows the message. -/
def tail (snippet : List (List Char)) (trailers : List Trailer) : List Char :=
  (snippet ++ trailers.map Trailer.print).flatMap ('\n' :: ·)

theorem print_eq : r.print = "Error: ".toList ++ r.message ++ tail r.snippet r.trailers := by
  have hjoin : ∀ (line : List Char) (lines : List (List Char)),
      ['\n'].intercalate (line :: lines) = line ++ lines.flatMap ('\n' :: ·) := by
    intro line lines
    induction lines generalizing line with
    | nil => simp
    | cons next lines ih =>
      rw [List.intercalate_cons_cons, ih next]
      simp
  exact hjoin _ _

/-- The text behind a line is empty or begins with the end of the line. -/
theorem eq_newline_of_mem_head?_tail {snippet : List (List Char)} {trailers : List Trailer} :
    ∀ c ∈ (tail snippet trailers).head?, c = '\n' := by
  intro c hc
  rw [tail] at hc
  cases hlines : snippet ++ trailers.map Trailer.print with
  | nil =>
    rw [hlines] at hc
    exact absurd hc (Option.not_mem_none c)
  | cons line lines =>
    rw [hlines] at hc
    exact (Option.mem_some.mp hc).symm

/-- **Behind the message the first trailer is found**, and from the start of the text behind a line
nothing else is. -/
theorem firstTrailer?_tail (trailers : List Trailer) {snippet : List (List Char)}
    (hline : ∀ line ∈ snippet, '\n' ∉ line)
    (hword : ∀ line ∈ snippet, ∀ ending ∈ sheetEndings, ¬ ending.toList <:+ firstWord line) :
    firstTrailer? false (tail snippet trailers) = trailers.head?.map Trailer.groups ∧
      (trailer? (tail snippet trailers) = none ∨
        trailer? (tail snippet trailers) = trailers.head?.map Trailer.groups) := by
  induction snippet with
  | nil =>
    cases trailers with
    | nil => exact ⟨rfl, Or.inl rfl⟩
    | cons t trailers =>
      -- The snippet has ended, and the first trailer follows its newline.
      have htail : tail [] (t :: trailers) = '\n' :: (t.print ++ tail [] trailers) := rfl
      have hnewline : ∀ c ∈ ['\n'], isBlank c = true := List.all_eq_true.mp (by decide)
      refine ⟨?_, Or.inr (t.trailer?_print hnewline (tail [] trailers))⟩
      have hfound : trailer? (t.print ++ tail [] trailers) = some t.groups :=
        t.trailer?_print (List.forall_mem_nil _) (tail [] trailers)
      rw [htail, firstTrailer?_newline, firstTrailer?_true, hfound]
      rfl
  | cons line snippet ih =>
    rw [List.forall_mem_cons] at hline hword
    obtain ⟨hfirst, hstart⟩ := ih hline.2 hword.2
    have htail : tail (line :: snippet) trailers = '\n' :: (line ++ tail snippet trailers) := rfl
    constructor
    · -- The line is left at its end, or the trailer is found from its start.
      rw [htail, firstTrailer?_newline, firstTrailer?_true, firstTrailer?_false_append hline.1,
        hfirst]
      rcases trailer?_line_append hword.1 eq_newline_of_mem_head?_tail with hnone | hrest
      · rw [hnone, Option.none_or]
      · rw [hrest]
        rcases hstart with hnone | hsome
        · rw [hnone, Option.none_or]
        · rw [hsome, Option.or_self]
    · have hword' : ∀ ending ∈ sheetEndings, ¬ ending.toList <:+ firstWord ('\n' :: line) := hword.1
      rw [htail, ← List.cons_append]
      rcases trailer?_line_append hword' eq_newline_of_mem_head?_tail with hnone | hrest
      · exact Or.inl hnone
      · rw [hrest]
        exact hstart

theorem firstTrailer?_print :
    firstTrailer? true r.print = r.trailers.head?.map Trailer.groups := by
  have hnone : trailer? ("Error: ".toList ++ (r.message ++ tail r.snippet r.trailers)) = none := rfl
  have hword : '\n' ∉ "Error: ".toList := by decide
  rw [print_eq, List.append_assoc, firstTrailer?_true, hnone, Option.none_or,
    firstTrailer?_false_append hword, firstTrailer?_false_append r.message_line]
  exact (firstTrailer?_tail r.trailers r.snippet_line r.snippet_word).1

/-- **The message is read back.** -/
theorem reportMessage_print : reportMessage r.print = String.ofList r.message := by
  have htrim : Text.trimEnd r.message = r.message := by
    conv_lhs => rw [← r.message_trim, trim, Text.trimEnd_trimEnd]
    exact r.message_trim
  have hne : Text.trimEnd r.message ≠ [] := by
    rw [htrim]
    exact r.message_ne_nil
  have hline : trim ("Error: ".toList ++ r.message) = "Error: ".toList ++ r.message := by
    have hstart : Text.trimStart ("Error: ".toList ++ r.message)
        = "Error: ".toList ++ r.message := rfl
    rw [trim, hstart, Text.trimEnd_append hne, htrim]
  have hnewline : '\n' ∉ "Error: ".toList ++ r.message := by
    rw [List.mem_append, not_or]
    exact ⟨by decide, r.message_line⟩
  have htail : ∀ c ∈ (tail r.snippet r.trailers).head?, c = '\n' := eq_newline_of_mem_head?_tail
  have hhead := Text.head?_lines (List.append_ne_nil_of_left_ne_nil (by decide) r.message) hnewline
    htail
  rw [hline, ← print_eq] at hhead
  obtain ⟨first, hfirst, hfirst'⟩ := Option.map_eq_some_iff.mp hhead
  obtain ⟨lines, hlines⟩ := List.head?_eq_some_iff.mp hfirst
  have hspace : ∀ c ∈ [' '], isBlank c = true := List.all_eq_true.mp (by decide)
  have hmessage : trim (' ' :: r.message) = r.message :=
    (Text.trim_blanks_append hspace r.message).trans r.message_trim
  rw [reportMessage, hlines, List.map_cons, hfirst']
  exact congrArg String.ofList hmessage

end Report

/-- **A report tells its message and the place of its first trailer.** -/
theorem CompileError.ofReport_print (source : Path) (r : Report) :
    ofReport source r.print = r.error source := by
  rw [ofReport, r.reportMessage_print, r.firstTrailer?_print, Report.error]
  cases r.trailers with
  | nil => rfl
  | cons t trailers =>
    have hgroups : (t :: trailers).head?.map Trailer.groups
      = some (t.file, Nat.toDigits 10 t.line, Nat.toDigits 10 t.column) := rfl
    dsimp only
    rw [hgroups]
    dsimp only
    rw [Text.readNat64?_toDigits t.line_lt, Text.readNat64?_toDigits t.column_lt]

/-- A report with a line of the source and two places. -/
def navReport : Report where
  message := "expected \";\".".toList
  snippet := ["3 |   color: red".toList, "  |".toList]
  trailers := [
    { stem := "scss/_nav".toList, ending := ".scss", line := 3, column := 13,
      frame := "@import".toList, stem_ne_nil := List.cons_ne_nil _ _,
      stem_solid := List.all_iff_forall_prop.mp (by decide +kernel), ending_mem := by decide,
      line_lt := by decide, column_lt := by decide },
    { stem := "scss/main".toList, ending := ".scss", line := 1, column := 9,
      frame := "root stylesheet".toList, stem_ne_nil := List.cons_ne_nil _ _,
      stem_solid := List.all_iff_forall_prop.mp (by decide +kernel), ending_mem := by decide,
      line_lt := by decide, column_lt := by decide }]
  message_ne_nil := by decide +kernel
  message_trim := by decide +kernel
  message_line := by decide +kernel
  snippet_line := by decide +kernel
  snippet_word := by decide +kernel

/-- The first of two places is the one that is told. -/
theorem CompileError.ofReport_print_nav :
    navReport.print = ("Error: expected \";\".\n3 |   color: red\n  |\n" ++
      "  scss/_nav.scss 3:13  @import\n  scss/main.scss 1:9  root stylesheet").toList ∧
    ofReport ⟨"scss/main.scss"⟩ navReport.print
      = { file := ⟨"scss/_nav.scss"⟩, line := some 3, column := some 13,
          message := "expected \";\"." } := by
  have herror : navReport.error ⟨"scss/main.scss"⟩
      = { file := ⟨"scss/_nav.scss"⟩, line := some 3, column := some 13,
          message := "expected \";\"." } := by
    decide +kernel
  refine ⟨by decide +kernel, ?_⟩
  rw [ofReport_print ⟨"scss/main.scss"⟩ navReport, herror]

end SheetGraph
