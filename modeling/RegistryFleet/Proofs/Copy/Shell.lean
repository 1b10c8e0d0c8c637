import RegistryFleet.Copy.Shell
import Mathlib.Data.List.Forall2

/-!
# Proofs/Copy/Shell — a shell reads a quoted word as the text it was made of

A reader of simple commands, one on each line. Outside of quotes a blank ends a word and a line
break ends a command; between single quotes every character stands for itself; between double
quotes a backslash takes the meaning from a few characters, and a variable is replaced by its value.
Whatever else a shell would do at a character, the reader refuses it.

* `Reader.read` — one step for each character.
* `Reads` — a piece of text that adds to the word at which the reader stands.
* `reads_wordOf` — a quoted word adds the text it was made of, whatever the style of its chunks.
* `commands?_lines` — lines of words are commands, one each.
* `fields_intercalate` — texts between spaces are the fields of a variable outside of quotes.
-/

namespace RegistryFleet.Shell

/-! ## The reader -/

/-- How the next character is read. -/
inductive Quote
  | bare
  | single
  | double
  /-- Between double quotes, behind a backslash. -/
  | escape
  /-- Between double quotes, in the name of a variable. -/
  | dollar (name : List Char)
  deriving DecidableEq

/-- Characters that mean more than themselves outside of quotes. -/
def specials : List Char :=
  ['|', '&', ';', '(', ')', '<', '>', '$', '`', '\\', '*', '?', '[', '#', '~', '!', '\x7b', '\x7d',
    '=']

/-- What has been read of a text, and how the rest is to be read. -/
structure Reader where
  quote : Quote
  /-- The word that is being read, once it has begun. -/
  word : Option (List Char)
  /-- The words before it on its line. -/
  words : List String
  /-- The commands on the lines before. -/
  commands : List (List String)

/-- The value of every variable. -/
abbrev Variables : Type := String → String

namespace Reader

/-- The reader in front of a text. -/
def start : Reader := ⟨.bare, none, [], []⟩

/-- Adds characters to the word. -/
def put (r : Reader) (cs : List Char) : Reader := { r with word := some (r.word.getD [] ++ cs) }

/-- Goes on in another way, within a word. -/
def turn (r : Reader) (quote : Quote) : Reader := { r.put [] with quote := quote }

/-- Ends the word. -/
def endWord (r : Reader) : Reader :=
  match r.word with
  | none => r
  | some cs => { r with word := none, words := r.words ++ [String.ofList cs] }

/-- Ends the command; an empty line is none. -/
def endCommand (r : Reader) : Reader :=
  let r := r.endWord
  if r.words = [] then r else { r with words := [], commands := r.commands ++ [r.words] }

/-- A character outside of quotes. -/
def bare (r : Reader) (c : Char) : Option Reader :=
  if c = '\'' then some (r.turn .single)
  else if c = '"' then some (r.turn .double)
  else if c = ' ' ∨ c = '\t' then some r.endWord
  else if c = '\n' then some r.endCommand
  else if specials.contains c then none
  else some (r.put [c])

/-- A character between double quotes. -/
def double (r : Reader) (c : Char) : Option Reader :=
  if c = '"' then some (r.turn .bare)
  else if c = '\\' then some (r.turn .escape)
  else if c = '$' then some (r.turn (.dollar []))
  else if c = '`' then none
  else some (r.put [c])

/-- A character behind a backslash between double quotes. -/
def escape (r : Reader) (c : Char) : Reader :=
  let r := r.turn .double
  if c = '\n' then r
  else if ['$', '`', '"', '\\'].contains c then r.put [c]
  else r.put ['\\', c]

/-- Can the character stand in the name of a variable behind these? -/
def inName : List Char → Char → Bool
  | [], c => c.isAlpha || c == '_'
  | _ :: _, c => c.isAlphanum || c == '_'

/-- One more character. -/
def step (value : Variables) (r : Reader) (c : Char) : Option Reader :=
  match r.quote with
  | .bare => r.bare c
  | .single => some (if c = '\'' then r.turn .bare else r.put [c])
  | .double => r.double c
  | .escape => some (r.escape c)
  | .dollar name =>
    if inName name c then some (r.turn (.dollar (name ++ [c])))
    else if name = [] then none
    else ((r.turn .double).put (value (String.ofList name)).toList).double c

/-- **Reads a text**, character by character. -/
def read (value : Variables) : Reader → List Char → Option Reader
  | r, [] => some r
  | r, c :: cs => (r.step value c).bind fun r => r.read value cs

variable {value : Variables} {r : Reader}

theorem read_append (r : Reader) : ∀ (cs ds : List Char),
    r.read value (cs ++ ds) = (r.read value cs).bind fun r => r.read value ds
  | [], ds => rfl
  | c :: cs, ds => by
      simp only [List.cons_append, read, Option.bind_assoc]
      exact congrArg _ (funext fun r => read_append r cs ds)

@[simp] theorem put_put (r : Reader) (cs ds : List Char) :
    (r.put cs).put ds = r.put (cs ++ ds) := by
  simp [put]

@[simp] theorem turn_put (r : Reader) (quote : Quote) (cs : List Char) :
    (r.turn quote).put cs = (r.put cs).turn quote := by
  simp [turn, put]

@[simp] theorem turn_turn (r : Reader) (quote quote' : Quote) :
    (r.turn quote).turn quote' = r.turn quote' := by
  simp [turn, put]

/-- A reader outside of quotes is where it was. -/
theorem put_turn_bare (hr : r.quote = .bare) (cs : List Char) :
    (r.put cs).turn .bare = r.put cs := by
  simp [turn, put, ← hr]

@[simp] theorem quote_put (r : Reader) (cs : List Char) : (r.put cs).quote = r.quote := rfl

@[simp] theorem quote_turn (r : Reader) (quote : Quote) : (r.turn quote).quote = quote := rfl

end Reader

/-- The commands of a text. -/
def commands? (value : Variables) (text : List Char) : Option (List (List String)) := do
  let r ← Reader.start.read value text
  if r.quote = .bare then return r.endCommand.commands else none

/-! ## Words -/

/-- **The text adds `meaning` to the word** at which the reader stands. -/
def Reads (value : Variables) (text meaning : List Char) : Prop :=
  ∀ r : Reader, r.quote = .bare → r.read value text = some (r.put meaning)

variable {value : Variables} {text text' meaning meaning' : List Char} {r : Reader}

theorem Reads.append (h : Reads value text meaning) (h' : Reads value text' meaning') :
    Reads value (text ++ text') (meaning ++ meaning') := fun r hr => by
  rw [Reader.read_append, h r hr, Option.bind_some, h' (r.put meaning) hr, Reader.put_put]

/-- A character that a bare chunk holds stands for itself. -/
theorem reads_bare_char {c : Char} (hc : Style.bare.holds c = true) : Reads value [c] [c] :=
  fun r hr => by
    have hnone : (['\'', '"', ' ', '\t', '\n'] ++ specials).all (fun d => !Style.bare.holds d)
        = true := by decide
    have hne : ∀ d ∈ ['\'', '"', ' ', '\t', '\n'] ++ specials, c ≠ d := fun d hd he => by
      have hd := List.all_eq_true.1 hnone d hd
      rw [← he, hc] at hd
      cases hd
    have hspecial : c ∉ specials := fun h => hne c (List.mem_append_right _ h) rfl
    have hquotes : c ≠ '\'' ∧ c ≠ '"' ∧ c ≠ ' ' ∧ c ≠ '\t' ∧ c ≠ '\n' := by
      refine ⟨hne _ ?_, hne _ ?_, hne _ ?_, hne _ ?_, hne _ ?_⟩ <;> decide
    simp [Reader.read, Reader.step, hr, Reader.bare, hquotes, hspecial]

/-- A bare chunk. -/
theorem reads_bare : ∀ {cs : List Char}, cs ≠ [] → (∀ c ∈ cs, Style.bare.holds c = true) →
    Reads value cs cs
  | [c], _, h => reads_bare_char (h c List.mem_cons_self)
  | c :: d :: cs, _, h =>
    (reads_bare_char (h c List.mem_cons_self)).append
      (reads_bare (List.cons_ne_nil d cs) fun e he => h e (List.mem_cons_of_mem c he))

/-- A text that needs no quotes. -/
theorem reads_bareText {s : String} (hs : s ≠ "") (h : s.toList.all Style.bare.holds = true) :
    Reads value s.toList s.toList :=
  reads_bare (fun hnil => hs (String.toList_eq_nil_iff.1 hnil)) (List.all_eq_true.1 h)

theorem read_single : ∀ {cs : List Char}, '\'' ∉ cs → ∀ r : Reader,
    (r.turn .single).read value (cs ++ ['\'']) = some ((r.put cs).turn .bare)
  | [], _, r => by simp [Reader.read, Reader.step, Reader.turn, Reader.put]
  | c :: cs, h, r => by
      obtain ⟨hc, hcs⟩ := not_or.1 fun hmem => h (List.mem_cons.2 hmem)
      have ih := read_single hcs (r.put [c])
      simpa [Reader.read, Reader.step, Ne.symm hc] using ih

/-- A chunk between single quotes. -/
theorem reads_single {cs : List Char} (h : '\'' ∉ cs) : Reads value (Style.single.write cs) cs :=
  fun r hr => by
    have hopen : r.step value '\'' = some (r.turn .single) := by simp [Reader.step, hr, Reader.bare]
    rw [Style.write, List.cons_append, Reader.read, hopen, Option.bind_some, read_single h,
      Reader.put_turn_bare hr]

theorem read_escaped {c : Char} (hc : Style.double.holds c = true) (r : Reader) :
    (r.turn .double).read value (escaped c) = some ((r.put [c]).turn .double) := by
  have hkeeps : c ≠ '$' ∧ c ≠ '`' := by
    constructor <;> rintro rfl <;> revert hc <;> decide
  unfold escaped
  split
  · next hmark =>
    rcases hmark with rfl | rfl <;>
      simp [Reader.read, Reader.step, Reader.double, Reader.escape]
  · next hmark =>
    obtain ⟨hquote, hslash⟩ := not_or.1 hmark
    simp [Reader.read, Reader.step, Reader.double, hquote, hslash, hkeeps]

theorem read_double : ∀ {cs : List Char}, (∀ c ∈ cs, Style.double.holds c = true) → ∀ r : Reader,
    (r.turn .double).read value (cs.flatMap escaped ++ ['"']) = some ((r.put cs).turn .bare)
  | [], _, r => by simp [Reader.read, Reader.step, Reader.double, Reader.turn, Reader.put]
  | c :: cs, h, r => by
      have ih := read_double (fun d hd => h d (List.mem_cons_of_mem c hd)) (r.put [c])
      rw [List.flatMap_cons, List.append_assoc, Reader.read_append,
        read_escaped (h c List.mem_cons_self), Option.bind_some, ih, Reader.put_put,
        List.singleton_append]

/-- A chunk between double quotes. -/
theorem reads_double {cs : List Char} (h : ∀ c ∈ cs, Style.double.holds c = true) :
    Reads value (Style.double.write cs) cs := fun r hr => by
  have hopen : r.step value '"' = some (r.turn .double) := by simp [Reader.step, hr, Reader.bare]
  rw [Style.write, List.cons_append, Reader.read, hopen, Option.bind_some, read_double h,
    Reader.put_turn_bare hr]

/-- **Styles that fit a chunk** — it may begin with a caret between single quotes. -/
def Fit (styles : Styles) (chunk : List Char) : Prop :=
  styles ≠ [] ∧ chunk ≠ [] ∧ ∀ s ∈ styles, ∀ c ∈ chunk,
    s.holds c = true ∨ (s = .single ∧ c = '^')

theorem Fit.reads {styles : Styles} {chunk : List Char} (h : Fit styles chunk) :
    Reads value (close styles chunk) chunk := by
  obtain ⟨hstyles, hchunk, hholds⟩ := h
  obtain ⟨s, rest, rfl⟩ := List.exists_cons_of_ne_nil hstyles
  have hs : ∀ c ∈ chunk, s.holds c = true ∨ (s = .single ∧ c = '^') := hholds s List.mem_cons_self
  cases s with
  | bare => exact reads_bare hchunk fun c hc => (hs c hc).resolve_right fun ⟨he, _⟩ => nomatch he
  | single =>
    refine reads_single fun hmark => ?_
    rcases hs _ hmark with hholds | ⟨-, he⟩
    · exact absurd hholds (by decide)
    · exact absurd he (by decide)
  | double =>
    exact reads_double fun c hc => (hs c hc).resolve_right fun ⟨he, _⟩ => nomatch he

/-- Some style holds every character. -/
theorem fit_opening (c : Char) : Fit (opening c) [c] := by
  unfold opening
  split
  · next hcaret => exact ⟨List.cons_ne_nil _ _, List.cons_ne_nil _ _, by simp [hcaret]⟩
  · next hcaret =>
    refine ⟨fun hnone => ?_, List.cons_ne_nil _ _, fun s hs d hd => ?_⟩
    · have hall : ∀ s, Style.holds s c = false := fun s => by
        have hs : s ∈ Style.all := by cases s <;> decide
        exact Bool.eq_false_iff.2 fun hc => List.filter_eq_nil_iff.1 hnone s hs hc
      -- What is not held between single quotes is a quote, a caret or a backslash.
      have hsingle := hall .single
      have hdouble := hall .double
      simp only [Style.holds, Bool.not_eq_false', List.contains_iff_mem, List.mem_cons,
        List.not_mem_nil, or_false] at hsingle hdouble
      rcases hsingle with rfl | rfl | rfl
      · exact absurd hdouble (by decide)
      · exact hcaret rfl
      · exact absurd hdouble (by decide)
    · rw [List.mem_singleton.1 hd]
      exact .inl (List.mem_filter.1 hs).2

theorem Fit.extend {styles : Styles} {chunk : List Char} {c : Char} (h : Fit styles chunk)
    (hsome : (styles.filter fun s => s.holds c) ≠ []) :
    Fit (styles.filter fun s => s.holds c) (chunk ++ [c]) := by
  refine ⟨hsome, by simp, fun s hs d hd => ?_⟩
  obtain ⟨hmem, hc⟩ := List.mem_filter.1 hs
  rcases List.mem_append.1 hd with hd | hd
  · exact h.2.2 s hmem d hd
  · rw [List.mem_singleton.1 hd]
    exact .inl hc

theorem reads_continueWord : ∀ {styles : Styles} {chunk : List Char} (cs : List Char),
    Fit styles chunk → Reads value (continueWord styles chunk cs) (chunk ++ cs)
  | styles, chunk, [], h => by
      rw [List.append_nil]
      exact h.reads
  | styles, chunk, c :: cs, h => by
      unfold continueWord
      split
      · exact h.reads.append (reads_continueWord cs (fit_opening c))
      · next remaining hsome =>
        have hsplit : chunk ++ c :: cs = chunk ++ [c] ++ cs := List.append_cons chunk c cs
        rw [hsplit]
        exact reads_continueWord cs (h.extend hsome)

/-- **A shell reads a word as the text it was made of.** -/
theorem reads_wordOf : ∀ cs : List Char, Reads value (wordOf cs) cs
  | [] => reads_single List.not_mem_nil
  | c :: cs => reads_continueWord cs (fit_opening c)

/-- A text has a word if it is free of NUL. -/
theorem isSome_word? {s : String} : (word? s).isSome ↔ '\x00' ∉ s.toList := by
  unfold word?
  split <;> simp_all

theorem read_name : ∀ (name : List Char) {cs : List Char}, name ≠ [] →
    (∀ c ∈ cs, Reader.inName name c = true) → ∀ r : Reader,
    (r.turn (.dollar name)).read value (cs ++ ['"'])
      = some ((r.put (value (String.ofList (name ++ cs))).toList).turn .bare)
  | d :: ds, [], _, _, r => by
      have hquote : Reader.inName (d :: ds) '"' = false := rfl
      simp [Reader.read, Reader.step, hquote, Reader.double]
  | d :: ds, c :: cs, _, h, r => by
      have ih := read_name (d :: ds ++ [c]) (List.cons_ne_nil _ _)
        (fun e he => h e (List.mem_cons_of_mem c he)) r
      simpa [Reader.read, Reader.step, h c List.mem_cons_self] using ih

/-- **A variable between double quotes** adds its value, which stays within the word. -/
theorem reads_variable {c : Char} {cs : List Char} (hc : Reader.inName [] c = true)
    (hcs : cs.all (Reader.inName [c]) = true) :
    Reads value ('"' :: '$' :: c :: cs ++ ['"']) (value (String.ofList (c :: cs))).toList :=
  fun r hr => by
    have hname : (r.turn (.dollar [c])).read value (cs ++ ['"']) = _ :=
      read_name [c] (List.cons_ne_nil c []) (List.all_eq_true.1 hcs) r
    rw [Reader.put_turn_bare hr] at hname
    simpa [Reader.read, Reader.step, hr, Reader.bare, Reader.double, hc] using hname

/-! ## Lines -/

/-- A space ends the word in front of it. -/
theorem read_space {r : Reader} (hr : r.quote = .bare) (cs : List Char) :
    r.read value (' ' :: cs) = r.endWord.read value cs := by
  simp [Reader.read, Reader.step, hr, Reader.bare]

/-- Words with the texts that a shell reads them as. -/
abbrev AllRead (value : Variables) (words meanings : List String) : Prop :=
  List.Forall₂ (fun word meaning => Reads value word.toList meaning.toList) words meanings

/-- The words of a line are those between its spaces. -/
theorem read_intercalate : ∀ {words meanings : List String}, AllRead value words meanings →
    words ≠ [] → ∀ r : Reader, r.quote = .bare → r.word = none →
      (r.read value (" ".intercalate words).toList).map Reader.endWord
        = some { r with words := r.words ++ meanings }
  | [word], [meaning], .cons h .nil, _, r, hr, hword => by
      simp [h r hr, Reader.put, Reader.endWord, hword]
  | word :: word' :: words, meaning :: meanings, .cons h hs, _, r, hr, hword => by
      have hline : (" ".intercalate (word :: word' :: words)).toList
          = word.toList ++ ' ' :: (" ".intercalate (word' :: words)).toList := by simp
      have hend : (r.put meaning.toList).endWord = { r with words := r.words ++ [meaning] } := by
        simp [Reader.put, Reader.endWord, hword]
      have ih := read_intercalate hs (List.cons_ne_nil _ _)
        { r with words := r.words ++ [meaning] } hr hword
      have hput : (r.put meaning.toList).quote = .bare := hr
      rw [hline, Reader.read_append, h r hr, Option.bind_some, read_space hput, hend, ih,
        List.append_assoc, List.singleton_append]

theorem Reader.quote_endWord (r : Reader) : r.endWord.quote = r.quote := by
  unfold endWord
  split <;> rfl

/-- The reader in front of a line. -/
def Reader.atLine (commands : List (List String)) : Reader := ⟨.bare, none, [], commands⟩

/-- A line break outside of quotes ends the command in front of it. -/
theorem read_newline {r : Reader} (hr : r.quote = .bare) (cs : List Char) :
    r.read value ('\n' :: cs) = r.endCommand.read value cs := by
  simp [Reader.read, Reader.step, hr, Reader.bare]

/-- The words of a line are one command more. -/
theorem read_line {words meanings : List String} (h : AllRead value words meanings)
    (hwords : words ≠ []) (commands : List (List String)) :
    ∃ r : Reader, (Reader.atLine commands).read value (" ".intercalate words).toList = some r
      ∧ r.quote = .bare ∧ r.endCommand = .atLine (commands ++ [meanings]) := by
  obtain ⟨r, hread, hend⟩ := Option.map_eq_some_iff.1
    (read_intercalate h hwords (.atLine commands) rfl rfl)
  have hsome : meanings ≠ [] := fun hnil => hwords (List.forall₂_nil_right_iff.1 (hnil ▸ h))
  refine ⟨r, hread, ?_, ?_⟩
  · rw [← r.quote_endWord, hend]
    rfl
  · rw [Reader.endCommand, hend]
    simp [Reader.atLine, hsome]

/-- Lines with the words that a shell reads them as. -/
abbrev AllLines (value : Variables) (lines meanings : List (List String)) : Prop :=
  List.Forall₂ (AllRead value) lines meanings

/-- The text of lines of words. -/
def unlines (lines : List (List String)) : String :=
  "\n".intercalate (lines.map fun words => " ".intercalate words)

theorem read_lines : ∀ {lines meanings : List (List String)}, AllLines value lines meanings →
    (∀ words ∈ lines, words ≠ []) → lines ≠ [] → ∀ commands : List (List String),
    ∃ r : Reader, (Reader.atLine commands).read value (unlines lines).toList = some r
      ∧ r.quote = .bare ∧ r.endCommand = .atLine (commands ++ meanings)
  | [words], [_], .cons h .nil, hwords, _, commands => by
      have hline : unlines [words] = " ".intercalate words := by simp [unlines]
      rw [hline]
      exact read_line h (hwords _ List.mem_cons_self) commands
  | words :: words' :: lines, meaning :: meanings, .cons h hs, hwords, _, commands => by
      obtain ⟨r, hread, hquote, hend⟩ := read_line h (hwords _ List.mem_cons_self) commands
      obtain ⟨r', hread', hquote', hend'⟩ := read_lines hs
        (fun w hw => hwords w (List.mem_cons_of_mem words hw)) (List.cons_ne_nil _ _)
        (commands ++ [meaning])
      have htext : (unlines (words :: words' :: lines)).toList
          = (" ".intercalate words).toList ++ '\n' :: (unlines (words' :: lines)).toList := by
        simp [unlines]
      refine ⟨r', ?_, hquote', ?_⟩
      · rw [htext, Reader.read_append, hread, Option.bind_some, read_newline hquote, hend, hread']
      · rw [hend', List.append_assoc, List.singleton_append]

/-- **Lines of words are commands**, one each. -/
theorem commands?_lines {lines meanings : List (List String)} (h : AllLines value lines meanings)
    (hwords : ∀ words ∈ lines, words ≠ []) (hlines : lines ≠ []) :
    commands? value (unlines lines).toList = some meanings := by
  obtain ⟨r, hread, hquote, hend⟩ := read_lines h hwords hlines []
  have hstart : Reader.start.read value (unlines lines).toList = some r := hread
  rw [commands?, hstart, Option.bind_eq_bind, Option.bind_some, if_pos hquote, hend]
  rfl

/-- **Words between spaces are one command.** -/
theorem commands?_intercalate {words meanings : List String} (h : AllRead value words meanings)
    (hwords : words ≠ []) : commands? value (" ".intercalate words).toList = some [meanings] := by
  have hline : unlines [words] = " ".intercalate words := by simp [unlines]
  rw [← hline]
  exact commands?_lines (.cons h .nil) (List.forall_mem_singleton.2 hwords) (List.cons_ne_nil _ _)

/-! ## Fields -/

/-- Characters at which the value of a variable outside of quotes is split. -/
def separates (c : Char) : Bool := c == ' ' || c == '\t' || c == '\n'

/-- The text has no place to split it at. -/
def Unsplit (s : String) : Prop := ∀ c ∈ s.toList, separates c = false

instance (s : String) : Decidable (Unsplit s) :=
  List.decidableBAll (fun c => separates c = false) s.toList

/-- **The fields of a value** — its longest parts that cannot be split. -/
def fields (value : String) : List String :=
  ((value.toList.splitOnP separates).filter (· ≠ [])).map String.ofList

/-- Texts between spaces are the fields. -/
theorem fields_intercalate : ∀ {texts : List String}, (∀ s ∈ texts, s ≠ "" ∧ Unsplit s) →
    fields (" ".intercalate texts) = texts
  | [], _ => rfl
  | [s], h => by
      obtain ⟨hs, hunsplit⟩ := h s List.mem_cons_self
      simp [fields, List.splitOnP_eq_singleton hunsplit, hs]
  | s :: s' :: texts, h => by
      obtain ⟨hs, hunsplit⟩ := h s List.mem_cons_self
      have ih : fields (" ".intercalate (s' :: texts)) = s' :: texts :=
        fields_intercalate fun t ht => h t (List.mem_cons_of_mem s ht)
      have hline : (" ".intercalate (s :: s' :: texts)).toList
          = s.toList ++ ' ' :: (" ".intercalate (s' :: texts)).toList := by simp
      rw [fields, hline, List.splitOnP_append_cons_of_forall_mem hunsplit ' ' rfl,
        List.filter_cons_of_pos (by simpa using hs), List.map_cons, String.ofList_toList]
      exact congrArg (s :: ·) ih

end RegistryFleet.Shell
