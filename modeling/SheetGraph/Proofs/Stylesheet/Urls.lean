import SheetGraph.Proofs.Stylesheet.Printing
import SheetGraph.Proofs.Stylesheet.Sequence

/-!
# Imports beside a `url(...)`

A directive may list `url(...)`s among its targets, and what they hold is no target.  The scanner
goes through a `url(...)` without taking anything in it for a comment (`UrlToken.keeps_text`).  The
argument is then cut at its commas: as long as no `url(...)` holds one, each is a piece by itself
and names nothing, even the last one, whose parenthesis may be taken for one around the argument
(`MixedDirective.targetsOf_of_closes`).

So the targets in quotes are what a directive imports (`imports_mixed`).  A comma in a `url(...)`
cuts it in two, and what stands behind the comma is taken for a target (`url_taken_for_import`).
-/

namespace SheetGraph

open CommentScanner (atText Keeps)
open Text (isBlank isSpaceOrTab trim trimStart trimEnd sameLetters)

/-! ### What a directive lists -/

/-- The characters that no target in quotes holds. -/
def quotedMarks : List Char := ['"', '\'', '\\', ',', ';', '\n', '\r']

/-- A target in quotes, on this machine. -/
structure QuotedTarget where
  quote : Char
  isQuote_quote : isQuote quote = true
  chars : List Char
  notMem_quotedMarks : ∀ c ∈ chars, c ∉ quotedMarks
  isRemote_chars : isRemote (trim chars) = false

namespace QuotedTarget

/-- The target in its quotes. -/
def text (t : QuotedTarget) : List Char :=
  t.quote :: t.chars ++ [t.quote]

/-- What is imported; blanks alone are no target. -/
def target? (t : QuotedTarget) : Option String :=
  if (trim t.chars).isEmpty then none else some (String.ofList (trim t.chars))

end QuotedTarget

/-- The quote that is open behind one more character. -/
def quoteAfter : Option Char → Char → Option Char
  | none, c => if isQuote c then some c else none
  | some q, c => if c = q then none else some q

/-- The characters that no `url(...)` holds. -/
def urlMarks : List Char := [')', ';', '\\', '\n', '\r']

/-- A `url(...)` that opens no quote without closing it. -/
structure UrlToken where
  word : List Char
  sameLetters_word : sameLetters "url".toList word = true
  content : List Char
  notMem_urlMarks : ∀ c ∈ content, c ∉ urlMarks
  closed : content.foldl quoteAfter none = none

/-- The text of a `url(...)` without the parenthesis at its end. -/
def UrlToken.opened (u : UrlToken) : List Char :=
  u.word ++ '(' :: u.content

/-- The text of a `url(...)`. -/
def UrlToken.text (u : UrlToken) : List Char :=
  u.opened ++ [')']

/-- What stands between two commas. -/
inductive ListedToken where
  | target (t : QuotedTarget)
  | url (u : UrlToken)

namespace ListedToken

/-- The text of a target or of a `url(...)`. -/
def text : ListedToken → List Char
  | target t => t.text
  | url u => u.text

/-- What is imported: nothing for a `url(...)`. -/
def target? : ListedToken → Option String
  | target t => t.target?
  | url _ => none

/-- What a `url(...)` holds. -/
def content : ListedToken → List Char
  | target _ => []
  | url u => u.content

end ListedToken

/-- A target or a `url(...)` with blanks around it. -/
structure ListedItem where
  token : ListedToken
  before : List Char
  after : List Char
  isBlank_of_mem : ∀ c ∈ before ++ after, isBlank c = true

/-- The text between two commas. -/
def ListedItem.print (a : ListedItem) : List Char :=
  a.before ++ (a.token.text ++ a.after)

/-- A directive that lists targets in quotes and `url(...)`s, a target first. -/
structure MixedDirective where
  word : List Char
  sameLetters_word : sameLetters importWord word = true
  items : List ListedItem
  exists_head : ∃ t, ∃ a ∈ items.head?, a.token = .target t

namespace MixedDirective

/-- The items with commas between them. -/
def body (x : MixedDirective) : List Char :=
  [','].intercalate (x.items.map ListedItem.print)

/-- The targets in quotes, in order. -/
def targets (x : MixedDirective) : List String :=
  x.items.filterMap (·.token.target?)

/-- The text of the directive in the syntax with braces. -/
def print (x : MixedDirective) : List Char :=
  x.word ++ (x.body ++ [';'])

/-- No `url(...)` holds a comma. -/
def CommaFree (x : MixedDirective) : Prop :=
  ∀ a ∈ x.items, ',' ∉ a.token.content

instance (x : MixedDirective) : Decidable x.CommaFree :=
  inferInstanceAs (Decidable (∀ a ∈ x.items, ',' ∉ a.token.content))

end MixedDirective

/-- What stands around the items of a directive that is a line. -/
structure LineFrame where
  indent : List Char
  gap : List Char
  isSpaceOrTab_of_mem : ∀ c ∈ indent ++ gap, isSpaceOrTab c = true
  gap_ne_nil : gap ≠ []
  ending : List Char
  ending_mem : ending ∈ lineEndings

namespace MixedDirective

/-- No blank around an item ends the line. -/
def OneLine (x : MixedDirective) : Prop :=
  ∀ a ∈ x.items, ∀ c ∈ a.before ++ a.after, c ≠ '\n' ∧ c ≠ '\r'

/-- The text of the directive in the indented syntax. -/
def line (x : MixedDirective) (f : LineFrame) : List Char :=
  f.indent ++ (x.word ++ (f.gap ++ (x.body ++ f.ending)))

end MixedDirective

/-! ### What the scanner keeps -/

/-- The word `url` has no blanks. -/
theorem isBlank_url : ∀ c ∈ "url".toList.map Char.toLower, isBlank c = false := by
  simp [isBlank]

namespace CommentScanner

/-- The scanner in a `url(...)`, in a quote or outside of quotes. -/
def atUrl (quote? : Option Char) (kept : List Char) : CommentScanner :=
  ⟨quote?.elim .text .quoted, true, kept.reverse⟩

/-- **Comment marks in a `url(...)`** are ordinary text: only quotes are told apart. -/
theorem step_atUrl {c : Char} (hc : c ∉ urlMarks) (quote? : Option Char) (kept : List Char) :
    (atUrl quote? kept).step c = atUrl (quoteAfter quote? c) (kept ++ [c]) := by
  simp only [urlMarks, List.mem_cons, List.not_mem_nil, or_false, not_or] at hc
  obtain ⟨hclose, -, hescape, hnewline, -⟩ := hc
  unfold atUrl
  rw [List.reverse_append]
  cases quote? with
  | none =>
    show stepText ⟨.text, true, kept.reverse⟩ c = _
    rw [stepText, quoteAfter]
    by_cases hquote : isQuote c = true
    · rw [if_pos (isQuote_iff.mp hquote), if_pos hquote]
      rfl
    · rw [if_neg (mt isQuote_iff.mpr hquote), if_neg hquote]
      split
      · -- A parenthesis in it changes nothing, whatever the scanner sees when it looks back.
        rfl
      · rw [if_neg (by tauto), if_neg (by simp)]
        rfl
  | some q =>
    show (if c = '\\' then _ else if c = q ∨ c = '\n' then _ else _) = _
    rw [if_neg hescape, quoteAfter]
    by_cases hquote : c = q
    · rw [if_pos (Or.inl hquote), if_pos hquote]
      rfl
    · rw [if_neg (by tauto), if_neg hquote]
      rfl

theorem scan_atUrl {cs : List Char} (h : ∀ c ∈ cs, c ∉ urlMarks) (quote? : Option Char)
    (kept : List Char) :
    (atUrl quote? kept).scan cs = atUrl (cs.foldl quoteAfter quote?) (kept ++ cs) := by
  induction cs generalizing quote? kept with
  | nil =>
    rw [List.append_nil]
    rfl
  | cons c cs ih =>
    rw [List.forall_mem_cons] at h
    rw [scan_cons, step_atUrl h.1, ih h.2, List.append_assoc, List.singleton_append,
      List.foldl_cons]

/-- A parenthesis behind the word `url` opens a `url(...)`. -/
theorem step_open {word : List Char} (hword : sameLetters "url".toList word = true)
    (kept : List Char) :
    (atText (kept ++ word)).step '(' = atUrl none (kept ++ word ++ ['(']) := by
  have hends : (atText (kept ++ word)).endsWithUrl = true := by
    refine endsWithUrl_iff.mpr ⟨word, hword, ?_⟩
    have hblank := Text.isBlank_eq_false_of_sameLetters hword isBlank_url
    have hne : word ≠ [] := by
      rintro rfl
      exact absurd hword (by decide)
    obtain ⟨front, last, rfl⟩ := List.eq_nil_or_concat word |>.resolve_left hne
    rw [List.concat_eq_append] at hblank ⊢
    have hlast : isBlank last = false := hblank last (List.mem_append_right front (by simp))
    show _ <:+ trimEnd (kept ++ (front ++ [last])).reverse.reverse
    rw [List.reverse_reverse, ← List.append_assoc, Text.trimEnd_append_of_not_blank _ hlast,
      List.append_assoc]
    exact List.suffix_append kept _
  show stepText (atText (kept ++ word)) '(' = _
  rw [stepText, if_neg (by decide), if_pos rfl, hends, atUrl, List.reverse_append]
  rfl

end CommentScanner

open CommentScanner (atUrl)

namespace UrlToken

variable (u : UrlToken)

theorem scan_opened (kept : List Char) :
    (atText kept).scan u.opened = atUrl none (kept ++ u.opened) := by
  have hword : Keeps u.word := keeps_of_sameLetters u.sameLetters_word (by decide)
  rw [opened, CommentScanner.scan_append, hword, CommentScanner.scan_cons,
    CommentScanner.step_open u.sameLetters_word, CommentScanner.scan_atUrl u.notMem_urlMarks,
    u.closed]
  simp only [List.append_assoc, List.singleton_append]

/-- **The scanner keeps a `url(...)`**, whatever it holds. -/
theorem keeps_text : Keeps u.text := by
  intro kept
  -- No quote is open at the end, so the parenthesis is one of the text.
  have hclose : (atUrl none (kept ++ u.opened)).step ')' = atText (kept ++ u.opened ++ [')']) := by
    rw [atText, List.reverse_append]
    rfl
  rw [text, CommentScanner.scan_append, u.scan_opened, ← List.append_assoc]
  exact hclose

theorem notMem_text {m : Char} (hletter : m.toLower ∉ "url".toList.map Char.toLower)
    (hopen : m ≠ '(') (hclose : m ≠ ')') (hcontent : m ∉ u.content) : m ∉ u.text := by
  simp only [text, opened, List.mem_append, List.mem_cons, List.not_mem_nil, or_false, not_or]
  exact ⟨⟨Text.notMem_of_sameLetters u.sameLetters_word hletter, hopen, hcontent⟩, hclose⟩

end UrlToken

namespace QuotedTarget

variable (t : QuotedTarget)

theorem notMem_text {m : Char} (hmark : m ∈ quotedMarks) (hquote : isQuote m = false) :
    m ∉ t.text := by
  have hne : m ≠ t.quote := by
    rintro rfl
    rw [t.isQuote_quote] at hquote
    cases hquote
  simp only [text, List.mem_append, List.mem_cons, List.not_mem_nil, or_false, not_or]
  exact ⟨⟨hne, fun hmem => t.notMem_quotedMarks m hmem hmark⟩, hne⟩

theorem keeps_text : Keeps t.text := by
  refine CommentScanner.scan_quoted (isQuote_iff.mp t.isQuote_quote) fun c hc => ?_
  have hnot := t.notMem_quotedMarks c hc
  refine ⟨?_, ?_, ?_⟩
  · rintro rfl
    rcases isQuote_iff.mp t.isQuote_quote with hq | hq <;> exact hnot (by rw [hq]; decide)
  · rintro rfl
    exact hnot (by decide)
  · rintro rfl
    exact hnot (by decide)

end QuotedTarget

namespace ListedItem

variable (a : ListedItem)

theorem isBlank_of_mem_before {c : Char} (hc : c ∈ a.before) : isBlank c = true :=
  a.isBlank_of_mem c (List.mem_append_left _ hc)

theorem isBlank_of_mem_after {c : Char} (hc : c ∈ a.after) : isBlank c = true :=
  a.isBlank_of_mem c (List.mem_append_right _ hc)

theorem keeps_print : Keeps a.print := by
  have htoken : Keeps a.token.text := by
    cases a.token with
    | target t => exact t.keeps_text
    | url u => exact u.keeps_text
  exact (keeps_of_isBlank fun _ => a.isBlank_of_mem_before).append
    (htoken.append (keeps_of_isBlank fun _ => a.isBlank_of_mem_after))

/-- A mark that is no blank stands between two commas only where a `url(...)` holds it. -/
theorem notMem_print {m : Char} (hmark : m ∈ [',', ';', '\n', '\r'])
    (hblank : m ∉ a.before ++ a.after) (hcontent : m ∉ a.token.content) : m ∉ a.print := by
  have htoken : m ∉ a.token.text := by
    have hmarks : ∀ m ∈ [',', ';', '\n', '\r'], m ∈ quotedMarks ∧ isQuote m = false ∧
        m.toLower ∉ "url".toList.map Char.toLower ∧ m ≠ '(' ∧ m ≠ ')' := by
      simp [quotedMarks, isQuote]
    obtain ⟨hquoted, hquote, hletter, hopen, hclose⟩ := hmarks m hmark
    cases htok : a.token with
    | target t => exact t.notMem_text hquoted hquote
    | url u =>
      rw [htok] at hcontent
      exact u.notMem_text hletter hopen hclose hcontent
  rw [List.mem_append, not_or] at hblank
  simp only [print, List.mem_append, not_or]
  exact ⟨hblank.1, htoken, hblank.2⟩

end ListedItem

/-! ### Targets -/

namespace QuotedTarget

variable (t : QuotedTarget)

theorem isBlank_quote : isBlank t.quote = false :=
  isBlank_eq_false_of_isQuote t.isQuote_quote

/-- **A target in quotes** is read without them. -/
theorem targetOf_text : targetOf t.text = .ok t.target? := by
  have htrim : trim t.text = t.text := trim_cons_concat t.isBlank_quote t.isBlank_quote t.chars
  have hurl : (Text.dropWord? "url(".toList t.text).isSome = false := by
    rcases isQuote_iff.mp t.isQuote_quote with hq | hq <;> rw [text, hq] <;> rfl
  have hstrip : stripQuotes t.text = .ok t.chars := stripQuotes_quoted t.isQuote_quote t.chars
  have hempty : t.text.isEmpty = false := rfl
  unfold targetOf
  dsimp only
  rw [htrim, hempty, hurl, hstrip, if_neg (by decide)]
  dsimp only
  rw [t.isRemote_chars, Bool.or_false, target?]
  split <;> rfl

end QuotedTarget

/-- **What begins as a `url(...)`** names nothing, closed or not. -/
theorem UrlToken.targetOf_open (u : UrlToken) (rest : List Char) :
    targetOf (u.word ++ '(' :: rest) = .ok none := by
  have hblank := Text.isBlank_eq_false_of_sameLetters u.sameLetters_word isBlank_url
  have hstart : trimStart (u.word ++ '(' :: rest) = u.word ++ '(' :: rest := by
    cases hword : u.word with
    | nil => rfl
    | cons c word =>
      have hc : isBlank c = false := hblank c (by rw [hword]; exact List.mem_cons_self)
      exact List.dropWhile_cons_of_neg (by rw [hc]; exact Bool.false_ne_true)
  -- No trimming reaches beyond the parenthesis, which is all that is looked at.
  have htrim : trim (u.word ++ '(' :: rest) = (u.word ++ ['(']) ++ trimEnd rest := by
    rw [trim, hstart, Text.trimEnd_append_cons rfl, List.append_assoc, List.singleton_append]
  have hletters : sameLetters "url(".toList (u.word ++ ['(']) = true := by
    have hword := eq_of_beq u.sameLetters_word
    rw [sameLetters, List.map_append, ← hword]
    rfl
  have hurl : Text.dropWord? "url(".toList ((u.word ++ ['(']) ++ trimEnd rest)
      = some (trimEnd rest) :=
    Text.dropWord?_eq_some_iff.mpr ⟨_, hletters, rfl⟩
  unfold targetOf
  dsimp only
  rw [htrim, hurl, Option.isSome_some, Bool.or_true]
  rfl

namespace ListedItem

variable (a : ListedItem)

/-- **What stands between two commas** is read as the target in it. -/
theorem targetOf_print : targetOf a.print = .ok a.token.target? := by
  have htrim : trim a.print = trim a.token.text := by
    rw [print, Text.trim_blanks_append fun _ => a.isBlank_of_mem_before,
      Text.trim_append_blanks fun _ => a.isBlank_of_mem_after]
  rw [targetOf_congr htrim]
  cases a.token with
  | target t => exact t.targetOf_text
  | url u =>
    show targetOf (u.opened ++ [')']) = .ok none
    rw [UrlToken.opened, List.append_assoc, List.cons_append]
    exact u.targetOf_open _

/-- Without the parenthesis that ends it a `url(...)` still names nothing. -/
theorem targetOf_opened {u : UrlToken} (hu : a.token = .url u) :
    targetOf (a.before ++ u.opened) = .ok a.token.target? := by
  have htrim : trim (a.before ++ u.opened) = trim u.opened :=
    Text.trim_blanks_append (fun _ => a.isBlank_of_mem_before) _
  rw [targetOf_congr htrim, hu]
  exact u.targetOf_open u.content

/-- **A parenthesis behind which only blanks stand** is the one of a `url(...)`. -/
theorem exists_opened_of_close {front inner post : List Char}
    (hpost : ∀ c ∈ post, isBlank c = true) (h : front ++ a.print = inner ++ [')'] ++ post) :
    ∃ u, a.token = .url u ∧ inner = front ++ (a.before ++ u.opened) := by
  have hclose : isBlank ')' = false := rfl
  rw [print] at h
  cases htok : a.token with
  | target t =>
    rw [htok] at h
    have hends : (front ++ a.before ++ t.quote :: t.chars) ++ [t.quote] ++ a.after
        = inner ++ [')'] ++ post := by
      simpa [ListedToken.text, QuotedTarget.text] using h
    -- A quote ends the item, so no parenthesis does.
    obtain ⟨-, hquote⟩ := eq_of_append_blanks t.isBlank_quote hclose
      (fun _ => a.isBlank_of_mem_after) hpost hends
    have hparen := t.isQuote_quote
    rw [hquote] at hparen
    cases hparen
  | url u =>
    rw [htok] at h
    have hends : (front ++ (a.before ++ u.opened)) ++ [')'] ++ a.after
        = inner ++ [')'] ++ post := by
      simpa [ListedToken.text, UrlToken.text] using h
    obtain ⟨hopened, -⟩ := eq_of_append_blanks hclose hclose
      (fun _ => a.isBlank_of_mem_after) hpost hends
    exact ⟨u, rfl, hopened.symm⟩

theorem opened_subset_print {u : UrlToken} (hu : a.token = .url u) :
    a.before ++ u.opened ⊆ a.print := by
  have hprint : a.print = (a.before ++ u.opened) ++ ([')'] ++ a.after) := by
    rw [print, hu]
    show a.before ++ (u.opened ++ [')'] ++ a.after) = _
    simp only [List.append_assoc]
  rw [hprint]
  exact List.subset_append_left _ _

end ListedItem

/-! ### Directives -/

theorem LineFrame.isSpaceOrTab_of_mem_indent (f : LineFrame) {c : Char} (hc : c ∈ f.indent) :
    isSpaceOrTab c = true :=
  f.isSpaceOrTab_of_mem c (List.mem_append_left _ hc)

theorem LineFrame.isSpaceOrTab_of_mem_gap (f : LineFrame) {c : Char} (hc : c ∈ f.gap) :
    isSpaceOrTab c = true :=
  f.isSpaceOrTab_of_mem c (List.mem_append_right _ hc)

namespace MixedDirective

variable (x : MixedDirective)

theorem keeps_body : Keeps x.body := by
  refine Keeps.intercalate (by decide) fun piece hpiece => ?_
  obtain ⟨a, -, rfl⟩ := List.mem_map.mp hpiece
  exact a.keeps_print

theorem keeps_word : Keeps x.word :=
  keeps_of_sameLetters x.sameLetters_word (by decide)

/-- **The scanner keeps the directive.** -/
theorem keeps_print : Keeps x.print :=
  x.keeps_word.append (x.keeps_body.append (Keeps.of_plain (by simp [CommentScanner.marks])))

theorem notMem_body {m : Char} (hmark : m ∈ [';', '\n', '\r'])
    (hblank : ∀ a ∈ x.items, m ∉ a.before ++ a.after) : m ∉ x.body := by
  have hmarks : ∀ m ∈ [';', '\n', '\r'], m ≠ ',' ∧ m ∈ [',', ';', '\n', '\r'] ∧ m ∈ urlMarks := by
    simp [urlMarks]
  obtain ⟨hcomma, hmark, hurl⟩ := hmarks m hmark
  refine notMem_intercalate hcomma fun piece hpiece => ?_
  obtain ⟨a, ha, rfl⟩ := List.mem_map.mp hpiece
  refine a.notMem_print hmark (hblank a ha) fun hcontent => ?_
  cases htok : a.token with
  | target t =>
    rw [htok] at hcontent
    exact absurd hcontent List.not_mem_nil
  | url u =>
    rw [htok] at hcontent
    exact u.notMem_urlMarks m hcontent hurl

theorem semicolon_notMem_body : ';' ∉ x.body := by
  refine x.notMem_body (by decide) fun a _ hmem => ?_
  exact absurd (a.isBlank_of_mem _ hmem) (by decide)

theorem exists_body : ∃ t : QuotedTarget, ∃ before rest,
    (∀ c ∈ before, isBlank c = true) ∧ x.body = before ++ t.quote :: rest := by
  obtain ⟨t, a, ha, htok⟩ := x.exists_head
  obtain ⟨items, hitems⟩ := List.head?_eq_some_iff.mp ha
  have hprint : a.print = a.before ++ t.quote :: (t.chars ++ [t.quote] ++ a.after) := by
    rw [ListedItem.print, htok]
    rfl
  rw [body, hitems]
  cases items with
  | nil =>
    rw [List.map_singleton, List.intercalate_singleton, hprint]
    exact ⟨t, a.before, _, fun _ => a.isBlank_of_mem_before, rfl⟩
  | cons b items =>
    rw [intercalate_map_cons, hprint, List.append_assoc]
    exact ⟨t, a.before, _, fun _ => a.isBlank_of_mem_before, rfl⟩

/-- The argument begins with a blank or with a quote, however many of its blanks are cut off. -/
theorem exists_dropWhile_body {p : Char → Bool} (hp : ∀ q, isQuote q = true → p q = false) :
    ∃ c rest, x.body.dropWhile p = c :: rest ∧ (isBlank c = true ∨ isQuote c = true) := by
  obtain ⟨t, before, rest, hbefore, hbody⟩ := x.exists_body
  have hneg : ¬ p t.quote = true := by
    rw [hp _ t.isQuote_quote]
    exact Bool.false_ne_true
  rw [hbody, List.dropWhile_append, List.dropWhile_cons_of_neg hneg]
  -- Blanks that `p` does not hold of may be left in front of the quote.
  cases hleft : before.dropWhile p with
  | nil => exact ⟨t.quote, rest, rfl, Or.inr t.isQuote_quote⟩
  | cons c left =>
    have hmem : c ∈ before.dropWhile p := by
      rw [hleft]
      exact List.mem_cons_self
    exact ⟨c, _, rfl, Or.inl (hbefore c ((List.dropWhile_suffix p).subset hmem))⟩

/-- So the argument is not the one of a directive that is a `url(...)`. -/
theorem afterUrl?_dropWhile_body {p : Char → Bool} (hp : ∀ q, isQuote q = true → p q = false)
    (gap : Char → Bool) (rest : List Char) :
    afterUrl? gap (x.body.dropWhile p ++ rest) = none := by
  obtain ⟨c, left, hleft, hc⟩ := x.exists_dropWhile_body hp
  have hne : 'u'.toLower ≠ c.toLower := by
    rcases hc with hblank | hquote
    · rw [Text.toLower_of_isBlank hblank]
      rintro rfl
      exact absurd hblank (by decide)
    · rcases isQuote_iff.mp hquote with rfl | rfl <;> decide
  have hdrop : Text.dropWord? "url".toList (c :: (left ++ rest)) = none := if_neg hne
  rw [hleft, List.cons_append, afterUrl?, hdrop]

theorem exists_bracesArgument :
    ∃ argument, bracesArgument x.body = some argument ∧ Closes x.body argument := by
  have hquote : ∀ q, isQuote q = true → isBlank q = false := fun _ => isBlank_eq_false_of_isQuote
  obtain ⟨c, rest, hstart, hc⟩ := x.exists_dropWhile_body hquote
  have hurl := x.afterUrl?_dropWhile_body hquote isBlank []
  rw [List.append_nil] at hurl
  refine ⟨closeArgument (trimStart x.body), ?_,
    Closes.of_pads (pads_trimStart x.body) (closes_closeArgument _)⟩
  unfold bracesArgument trimStart
  dsimp only
  rw [hurl, hstart]
  dsimp only
  split
  · rename_i heq
    obtain ⟨rfl, -⟩ := List.cons.inj heq
    rcases hc with hopen | hopen <;> exact absurd hopen (by decide)
  · rfl

/-- **The items are read one by one**, the last one perhaps in another form. -/
theorem targetsOf_concat {init : List ListedItem} {last : ListedItem} {piece : List Char}
    (hinit : ∀ a ∈ init, ',' ∉ a.print) (hpiece : ',' ∉ piece)
    (htarget : targetOf piece = .ok last.token.target?) :
    targetsOf ([','].intercalate (init.map ListedItem.print ++ [piece]))
      = .ok ((init ++ [last]).filterMap (·.token.target?)) := by
  have htargets : ((init ++ [last]).map (·.token.target?)).filterMap id
      = (init ++ [last]).filterMap (·.token.target?) :=
    List.filterMap_map
  rw [← htargets]
  refine targetsOf_intercalate (by simp) ?_ ?_
  · rw [List.forall_mem_append, List.forall_mem_singleton]
    refine ⟨fun piece hmem => ?_, hpiece⟩
    obtain ⟨a, ha, rfl⟩ := List.mem_map.mp hmem
    exact hinit a ha
  · rw [List.map_append]
    refine List.rel_append ?_ (List.Forall₂.cons htarget List.Forall₂.nil)
    rw [List.forall₂_map_left_iff, List.forall₂_map_right_iff, List.forall₂_same]
    exact fun a _ => a.targetOf_print

/-- **The argument is read as its targets**, with the parenthesis at its end or without. -/
theorem targetsOf_of_closes {argument : List Char} (hx : x.CommaFree)
    (h : Closes x.body argument) : targetsOf argument = .ok x.targets := by
  have hcomma : ∀ a ∈ x.items, ',' ∉ a.print := by
    intro a ha
    refine a.notMem_print (by decide) (fun hmem => ?_) (hx a ha)
    exact absurd (a.isBlank_of_mem _ hmem) (by decide)
  obtain ⟨init, last, hitems⟩ : ∃ init last, x.items = init ++ [last] := by
    obtain ⟨t, a, ha, -⟩ := x.exists_head
    obtain ⟨rest, hrest⟩ := List.head?_eq_some_iff.mp ha
    exact ⟨_, _, (List.dropLast_concat_getLast (by rw [hrest]; simp)).symm⟩
  have hbody : x.body = [','].intercalate (init.map ListedItem.print ++ [last.print]) := by
    rw [body, hitems, List.map_append, List.map_singleton]
  rw [hitems, List.forall_mem_append, List.forall_mem_singleton] at hcomma
  rw [targets, hitems]
  rcases h with hpads | ⟨inner, ⟨pre, post, hpre, hpost, hcut⟩, hinner⟩
  · -- Only blanks have been cut off.
    rw [← hpads.targetsOf_eq, hbody]
    exact targetsOf_concat hcomma.1 hcomma.2 last.targetOf_print
  · obtain ⟨front, -, happend⟩ := exists_intercalate_append ',' (init.map ListedItem.print)
    have hfront : ∀ piece, [','].intercalate (init.map ListedItem.print ++ [piece])
        = front ++ piece := by
      intro piece
      rw [happend piece [], List.intercalate_singleton]
    rw [hbody, hfront, ← List.append_assoc] at hcut
    -- The parenthesis is the one of the last `url(...)`.
    obtain ⟨u, hu, hopened⟩ := last.exists_opened_of_close hpost hcut
    have hpads : Pads (pre ++ inner) inner := ⟨pre, [], hpre, by simp, by simp⟩
    rw [← hinner.targetsOf_eq, ← hpads.targetsOf_eq, hopened, ← hfront]
    exact targetsOf_concat hcomma.1 (fun hmem => hcomma.2 (last.opened_subset_print hu hmem))
      (last.targetOf_opened hu)

theorem imports_print_of_commaFree (hx : x.CommaFree) :
    imports .braces x.print = .ok x.targets := by
  obtain ⟨argument, hargument, hcloses⟩ := x.exists_bracesArgument
  have hone : bracesArguments (removeComments x.print) = [argument] := by
    rw [x.keeps_print.removeComments_eq, print, ← List.append_assoc,
      bracesArguments_word x.sameLetters_word x.semicolon_notMem_body hargument []]
    rfl
  exact imports_eq_of_argument hone (x.targetsOf_of_closes hx hcloses)

variable (f : LineFrame)

/-- **The scanner keeps the line.** -/
theorem keeps_line : Keeps (x.line f) := by
  have hends : ∀ ending ∈ lineEndings, ∀ c ∈ ending, c ∉ CommentScanner.marks := by
    simp [lineEndings, CommentScanner.marks]
  have hending : Keeps f.ending := Keeps.of_plain (hends f.ending f.ending_mem)
  have hgap : Keeps f.gap := keeps_of_isSpaceOrTab fun _ => f.isSpaceOrTab_of_mem_gap
  exact (keeps_of_isSpaceOrTab fun _ => f.isSpaceOrTab_of_mem_indent).append
    (x.keeps_word.append (hgap.append (x.keeps_body.append hending)))

theorem imports_line_of_commaFree (hx : x.CommaFree) (hline : x.OneLine) :
    imports .indented (x.line f) = .ok x.targets := by
  have hquote : ∀ q, isQuote q = true → isSpaceOrTab q = false := fun _ =>
    isSpaceOrTab_eq_false_of_isQuote
  have hnewline : '\n' ∉ x.body :=
    x.notMem_body (by decide) fun a ha hmem => (hline a ha _ hmem).1 rfl
  have hreturn : '\r' ∉ x.body :=
    x.notMem_body (by decide) fun a ha hmem => (hline a ha _ hmem).2 rfl
  obtain ⟨argument, hargument, hcloses⟩ := exists_indentedArguments
    (fun _ => f.isSpaceOrTab_of_mem_indent) x.sameLetters_word
    (fun _ => f.isSpaceOrTab_of_mem_gap) f.gap_ne_nil
    (x.afterUrl?_dropWhile_body hquote isSpaceOrTab f.ending) x.semicolon_notMem_body hnewline
    hreturn f.ending_mem
  have hone : indentedArguments (removeComments (x.line f)) = [argument] := by
    rw [(x.keeps_line f).removeComments_eq]
    exact hargument
  exact imports_eq_of_argument hone (x.targetsOf_of_closes hx hcloses)

end MixedDirective

/-! ### Stylesheets -/

/-- **Nothing in a `url(...)` is taken for an import**, as long as it holds no comma: a directive
imports its targets in quotes, in both syntaxes. -/
theorem imports_mixed (x : MixedDirective) (hx : x.CommaFree) :
    imports .braces x.print = .ok x.targets ∧
      (x.OneLine → ∀ f : LineFrame, imports .indented (x.line f) = .ok x.targets) :=
  ⟨x.imports_print_of_commaFree hx, fun hline f => x.imports_line_of_commaFree f hx hline⟩

/-- A target in quotes and a `url(...)` behind it. -/
def besideUrl (u : UrlToken) : MixedDirective where
  word := importWord
  sameLetters_word := rfl
  items :=
    [⟨.target ⟨'"', rfl, ['a'], by simp [quotedMarks], by decide⟩, [' '], [], by simp [isBlank]⟩,
      ⟨.url u, [' '], [], by simp [isBlank]⟩]
  exists_head := ⟨_, _, rfl, rfl⟩

/-- A line with a tab in front that a semicolon and a carriage return end. -/
def tabbedLine : LineFrame where
  indent := ['\t']
  gap := [' ']
  isSpaceOrTab_of_mem := by simp [isSpaceOrTab]
  gap_ne_nil := by decide
  ending := [';', '\r']
  ending_mem := by decide

/-- A `url(...)` may hold quotes and the marks of comments. -/
theorem imports_mixed_slashes :
    let u : UrlToken := ⟨"URL".toList, by decide, "//b?'/*'".toList, by simp [urlMarks], by decide⟩
    (besideUrl u).CommaFree ∧ (besideUrl u).OneLine ∧
      (besideUrl u).print = "@import \"a\", URL(//b?'/*');".toList ∧
      imports .braces (besideUrl u).print = .ok ["a"] ∧
      imports .indented ((besideUrl u).line tabbedLine) = .ok ["a"] := by
  intro u
  have hfree : (besideUrl u).CommaFree := by decide
  have hline : (besideUrl u).OneLine := by simp [MixedDirective.OneLine, besideUrl]
  obtain ⟨hbraces, hindented⟩ := imports_mixed (besideUrl u) hfree
  exact ⟨hfree, hline, rfl, hbraces, hindented hline tabbedLine⟩

/-- **What stands behind a comma in a `url(...)` may be taken for an import**, and a quote in front
of the comma is missed behind it. -/
theorem url_taken_for_import :
    let bare : UrlToken := ⟨"url".toList, by decide, "b,c".toList, by simp [urlMarks], by decide⟩
    let quoted : UrlToken :=
      ⟨"url".toList, by decide, "'b,c'".toList, by simp [urlMarks], by decide⟩
    ((besideUrl bare).print = "@import \"a\", url(b,c);".toList ∧
      (besideUrl bare).targets = ["a"] ∧ imports .braces (besideUrl bare).print = .ok ["a", "c"] ∧
      imports .indented ((besideUrl bare).line tabbedLine) = .ok ["a", "c"]) ∧
    (besideUrl quoted).targets = ["a"] ∧
      imports .braces (besideUrl quoted).print = .error (.badlyQuoted "c'" none) := by
  intro bare quoted
  exact ⟨⟨rfl, by decide +kernel, by decide +kernel, by decide +kernel⟩, by decide +kernel,
    by decide +kernel⟩

end SheetGraph
