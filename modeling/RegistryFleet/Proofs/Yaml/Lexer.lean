import RegistryFleet.Proofs.Yaml.Plain
import RegistryFleet.Yaml.Token

/-!
# Proofs/Yaml/Lexer — reading token after token delivers what the last state holds

The lexer delivers tokens while it reads further ones, since a token may still turn out to be a key.
What is delivered in the end does not depend on this: a run that reads up to the end of the text
delivers all tokens of its last state.

* `Lexer.Reads` — a run of so many tokens, along which no possible key gets out of reach.
* `Lexer.deliver_of_reads` — what such a run delivers.
* `Lexer.read?_of_skip` — only what stands behind blanks, comments and breaks decides what is read.
-/

namespace RegistryFleet.Yaml.Lexer

variable {s t u : Lexer}

/-! ## Runs -/

/-- No possible key is out of reach yet. -/
def Fresh (s : Lexer) : Prop := s.dropStale? = some s

/-- **A run of the lexer.** Every step adds a token. -/
inductive Reads : Nat → Lexer → Lexer → Prop
  | refl (s : Lexer) : Reads 0 s s
  | step {n : Nat} {s t u : Lexer} (ended : s.ended = false) (fresh : s.Fresh)
      (read : s.read? = some t) (grows : s.tokens.length < t.tokens.length) (more : Reads n t u) :
      Reads (n + 1) s u

theorem Reads.single (hended : s.ended = false) (hfresh : s.Fresh) (hread : s.read? = some t)
    (hgrows : s.tokens.length < t.tokens.length) : Reads 1 s t :=
  .step hended hfresh hread hgrows (.refl t)

theorem Reads.trans {m n : Nat} (h : Reads m s t) (h' : Reads n t u) : Reads (m + n) s u := by
  induction h with
  | refl s => rwa [Nat.zero_add]
  | step hended hfresh hread hgrows _ ih =>
    rw [Nat.add_right_comm]
    exact .step hended hfresh hread hgrows (ih h')

theorem Reads.grows {n : Nat} (h : Reads n s t) : s.tokens.length + n ≤ t.tokens.length := by
  induction h with
  | refl => exact Nat.le_refl _
  | step _ _ _ hgrows _ ih => omega

/-- **A run delivers** the tokens of its last state. Every step reads a token or delivers one, so
the steps needed are bounded by the length of the run and the tokens still to be delivered. -/
theorem deliver_of_reads {n : Nat} (h : Reads n s t) (hended : t.ended = true) (hfresh : t.Fresh)
    (hwaits : ∀ k, t.waitsAt k = false) : ∀ (steps delivered : Nat),
    n + (t.tokens.length - delivered) < steps → deliver steps delivered s = t.tokens := by
  intro steps
  induction steps generalizing n s with
  | zero => exact fun _ hsteps => absurd hsteps (Nat.not_lt_zero _)
  | succ steps ih =>
    intro delivered hsteps
    rw [deliver]
    cases h with
    | refl =>
      by_cases hmore : t.tokens.length ≤ delivered
      · rw [if_pos hmore, if_pos hended]
      · rw [if_neg hmore, hfresh]
        simp only [hwaits, Bool.false_eq_true, if_false]
        exact ih (.refl _) (delivered + 1) (by omega)
    | step hended' hfresh' hread hgrows hrest =>
      have hlength := hrest.grows
      by_cases hmore : s.tokens.length ≤ delivered
      · rw [if_pos hmore, if_neg (by simp [hended']), hread]
        exact ih hrest delivered (by omega)
      · rw [if_neg hmore, hfresh']
        simp only
        split
        · rw [hread]
          exact ih hrest delivered (by omega)
        · exact ih (.step hended' hfresh' hread hgrows hrest) (delivered + 1) (by omega)

/-- Where all possible keys are within reach, none gets lost. -/
theorem fresh_of_reach (hpossible : ∀ k ∈ s.possible, k.isStale s.cursor = false)
    (houter : ∀ o ∈ s.outerPossible, ∀ k ∈ o, k.isStale s.cursor = false) : s.Fresh := by
  have hkeep : ∀ o : Option PossibleKey, (∀ k ∈ o, k.isStale s.cursor = false) →
      (o.filter fun k => !k.isStale s.cursor) = o := fun o ho => by
    cases o with
    | none => rfl
    | some k => simp [Option.filter, ho k rfl]
  have hmap : (s.outerPossible.map fun o => o.filter fun k => !k.isStale s.cursor)
      = s.outerPossible := by
    conv_rhs => rw [← List.map_id s.outerPossible]
    exact List.map_congr_left fun o ho => hkeep o (houter o ho)
  have hany : ((s.possible :: s.outerPossible).any fun o =>
      o.any fun k => k.isStale s.cursor && k.required) = false := by
    rw [List.any_eq_false]
    intro o ho
    have hreach : ∀ k ∈ o, k.isStale s.cursor = false := by
      rcases List.mem_cons.1 ho with rfl | ho
      · exact hpossible
      · exact houter o ho
    cases o with
    | none => exact Bool.false_ne_true
    | some k => simp [hreach k rfl]
  rw [Fresh, dropStale?]
  simp only [hany, Bool.false_eq_true, if_false, hmap, hkeep _ hpossible]

theorem waitsAt_of_none (hpossible : s.possible = none) (houter : s.outerPossible = []) (k : Nat) :
    s.waitsAt k = false := by
  simp [waitsAt, hpossible, houter]

/-! ## In front of a token -/

/-- Blanks as they are written. -/
theorem toList_pushn (c : Char) (n : Nat) : ("".pushn c n).toList = List.replicate n c := by
  rw [String.pushn_eq_repeat_push]
  induction n with
  | zero => rfl
  | succ n ih => rw [Nat.repeat, String.toList_push, ih, List.replicate_succ']

/-- What a token can begin with: nothing is skipped in front of it. -/
def Begins (cs : List Char) : Prop :=
  ∀ c ∈ cs.head?, isBlankOrBreak c = false ∧ c ≠ '#' ∧ isByteOrderMark c = false

theorem begins_nil : Begins [] := fun _ h => by cases h

theorem begins_cons {c : Char} {cs : List Char} : Begins (c :: cs)
    ↔ isBlankOrBreak c = false ∧ c ≠ '#' ∧ isByteOrderMark c = false := by
  simp [Begins]

theorem isByteOrderMark_of_isPrintable {c : Char} (h : isPrintable c = true) :
    isByteOrderMark c = false := by
  refine beq_false_of_ne fun he => ?_
  unfold isPrintable at h
  rw [he] at h
  exact absurd h (by decide)

/-- Nothing is skipped in front of a text without quotes. -/
theorem begins_plain {cs : List Char} (h : PlainText cs) (r : List Char) : Begins (cs ++ r) := by
  have hsolid := h.solid r
  have hsharp := h.atWord.sharp
  obtain ⟨c, cs, rfl⟩ := List.exists_cons_of_ne_nil h.ne_nil
  exact begins_cons.2 ⟨solid_cons.1 hsolid, fun he => hsharp (he ▸ rfl),
    isByteOrderMark_of_isPrintable (h.printable c List.mem_cons_self)⟩

theorem Begins.solid {cs : List Char} (h : Begins cs) : Solid cs := fun c hc => (h c hc).1

/-- Only what stands in front of the next token decides what is read, and no key that is out of
reach there. -/
theorem read?_of_dropStale (h : s.skip.dropStale? = t.skip.dropStale?) : s.read? = t.read? := by
  unfold read?
  rw [h]

theorem read?_of_skip (h : s.skip = t.skip) : s.read? = t.read? :=
  read?_of_dropStale (congrArg dropStale? h)

variable {cs : List Char} {i l k : Nat}

/-- One line of what is skipped: blanks, up to its break or to a token. -/
theorem skipWithin_spaces {m : Nat} (hblank : ∀ c ∈ cs.head?, c ≠ ' ' ∧ c ≠ '\t' ∧ c ≠ '#')
    (hmark : ∀ c ∈ cs.head?, isByteOrderMark c = false)
    (hcursor : s.cursor = ⟨List.replicate m ' ' ++ cs, i, l, k⟩) (steps : Nat) :
    skipWithin (steps + 1) s = match (⟨cs, i + m, l, k + m⟩ : Cursor).break? with
      | some (_, next) =>
        skipWithin steps { s with cursor := next, keyAllowed := s.keyAllowed || !s.inFlow }
      | none => { s with cursor := ⟨cs, i + m, l, k + m⟩ } := by
  have hbom : (List.replicate m ' ' ++ cs).head?.any isByteOrderMark = false := by
    cases m with
    | zero => cases hhead : cs.head? <;> simp_all
    | succ m => rfl
  have hspan : ∀ b, (⟨List.replicate m ' ' ++ cs, i, l, k⟩ : Cursor).span
      (fun d => d == ' ' || (d == '\t' && b))
      = (List.replicate m ' ', ⟨cs, i + m, l, k + m⟩) := fun b => by
    have htaken : (List.replicate m ' ' ++ cs).takeWhile (fun d => d == ' ' || (d == '\t' && b))
        = List.replicate m ' ' := by
      rw [List.takeWhile_append_of_pos (fun d hd => by simp [List.eq_of_mem_replicate hd])]
      cases cs with
      | nil => simp
      | cons c cs => simp [(hblank c rfl).1, (hblank c rfl).2.1]
    have hadvance : (⟨List.replicate m ' ' ++ cs, i, l, k⟩ : Cursor).advance
        (List.replicate m ' ').length = _ := Cursor.advance_append
    rw [List.length_replicate] at hadvance
    rw [Cursor.span, htaken, List.length_replicate, hadvance]
  have hsharp : (⟨cs, i + m, l, k + m⟩ : Cursor).sees 0 '#' = false := by
    cases cs with
    | nil => rfl
    | cons c cs => simpa [Cursor.sees] using (hblank c rfl).2.2
  rw [skipWithin]
  cases hbreak : (⟨cs, i + m, l, k + m⟩ : Cursor).break? <;>
  simp only [hcursor, hbom, Bool.and_false, Bool.false_eq_true, if_false, hspan, hsharp, hbreak]

theorem skipWithin_begins {m : Nat} (h : Begins cs)
    (hcursor : s.cursor = ⟨List.replicate m ' ' ++ cs, i, l, k⟩) (steps : Nat) :
    skipWithin (steps + 1) s = { s with cursor := ⟨cs, i + m, l, k + m⟩ } := by
  have hblank : ∀ c ∈ cs.head?, c ≠ ' ' ∧ c ≠ '\t' ∧ c ≠ '#' := fun c hc => by
    obtain ⟨hsolid, hsharp, -⟩ := h c hc
    exact ⟨fun he => absurd (he ▸ hsolid) (by decide), fun he => absurd (he ▸ hsolid) (by decide),
      hsharp⟩
  rw [skipWithin_spaces hblank (fun c hc => (h c hc).2.2) hcursor,
    Cursor.break?_solid (c := ⟨cs, i + m, l, k + m⟩) h.solid]

/-- Blanks in front of a token are skipped. -/
theorem skip_spaces {m : Nat} (h : Begins cs)
    (hcursor : s.cursor = ⟨List.replicate m ' ' ++ cs, i, l, k⟩) :
    s.skip = { s with cursor := ⟨cs, i + m, l, k + m⟩ } :=
  skipWithin_begins h hcursor _

/-- A break is skipped with the indentation behind it, where a key may begin again. -/
theorem skip_line {m : Nat} (h : Begins cs)
    (hcursor : s.cursor = ⟨'\n' :: (List.replicate m ' ' ++ cs), i, l, k⟩) :
    s.skip = { s with
      cursor := ⟨cs, i + 1 + m, l + 1, m⟩, keyAllowed := s.keyAllowed || !s.inFlow } := by
  have hlf : ∀ c ∈ ('\n' :: (List.replicate m ' ' ++ cs)).head?, c = '\n' := fun c hc =>
    (Option.some.inj hc).symm
  have hlength : s.cursor.rest.length = (List.replicate m ' ' ++ cs).length + 1 := by
    rw [hcursor, List.length_cons]
  rw [skip, skipWithin_spaces (m := 0) (fun c hc => hlf c hc ▸ by decide)
    (fun c hc => hlf c hc ▸ rfl) hcursor, Cursor.break?_kept rfl, hlength]
  simp only
  rw [skipWithin_begins h rfl, Nat.zero_add]

theorem skip_begins (h : Begins s.cursor.rest) : s.skip = s :=
  skip_spaces (m := 0) h rfl

/-! ## One token -/

/-- Blocks end where a token stands further left. -/
theorem close_of_le {column : Int} (h : s.indent ≤ column) : s.close column = s := by
  have hto : closeTo column s.indent s.outerIndents = (s.indent, s.outerIndents, 0) := by
    cases s.outerIndents with
    | nil => rfl
    | cons n ns => rw [closeTo, if_neg (by omega)]
  unfold close
  rw [hto]
  simp

theorem close_of_inFlow (h : s.inFlow = true) (column : Int) : s.close column = s := by
  rw [close, if_pos h]

/-- **What is read** where a token begins. -/
theorem read?_cons {d : Char} (hrest : s.cursor.rest = d :: cs) (h : Begins (d :: cs))
    (hfresh : s.Fresh) (hclose : s.close s.cursor.column = s) : s.read? = s.readAt? d := by
  rw [read?, skip_begins (hrest ▸ h), hfresh]
  simp only [Option.bind_eq_bind, Option.bind_some, hclose, hrest]

theorem read?_nil (hrest : s.cursor.rest = []) (hfresh : s.Fresh)
    (hclose : s.close s.cursor.column = s) : s.read? = s.readEnd? := by
  rw [read?, skip_begins (hrest ▸ begins_nil), hfresh]
  simp only [Option.bind_eq_bind, Option.bind_some, hclose, hrest]

section Kinds

variable {d : Char}

theorem seesMarker_of_ne (hrest : s.cursor.rest = d :: cs) {e : Char} (h : d ≠ e) :
    s.cursor.seesMarker e = false := by
  simp [Cursor.seesMarker, Cursor.sees, hrest, h]

/-- Marks that decide alone what is read. -/
theorem readAt?_quote (single : Bool) (hrest : s.cursor.rest = Lexeme.quoteMark single :: cs) :
    s.readAt? (Lexeme.quoteMark single)
      = s.readLexeme? fun c => (Lexeme.quoted? single c).map fun (t, k) =>
          (.scalar (String.ofList t) false, k) := by
  cases single <;> simp_all [readAt?, seesMarker_of_ne hrest, Lexeme.quoteMark]


theorem readAt?_literal (hrest : s.cursor.rest = '|' :: cs) (hflow : s.inFlow = false) :
    s.readAt? '|' = s.readBlock? true := by
  simp [readAt?, seesMarker_of_ne hrest, hflow]

theorem readAt?_colon (hrest : s.cursor.rest = ':' :: cs)
    (halone : (s.inFlow || s.cursor.endsWordAt 1) = true) : s.readAt? ':' = s.readColon? := by
  simp only [Bool.or_eq_true] at halone
  simp [readAt?, seesMarker_of_ne hrest, halone]

theorem readAt?_open (hrest : s.cursor.rest = '\x7b' :: cs) :
    s.readAt? '\x7b' = s.readOpening? .flowMappingStart := by
  simp [readAt?, seesMarker_of_ne hrest]

theorem readAt?_close (hrest : s.cursor.rest = '\x7d' :: cs) :
    s.readAt? '\x7d' = s.readClosing? .flowMappingEnd := by
  simp [readAt?, seesMarker_of_ne hrest]

theorem readAt?_comma (hrest : s.cursor.rest = ',' :: cs) : s.readAt? ',' = s.readComma? := by
  simp [readAt?, seesMarker_of_ne hrest]

/-- **A text without quotes** begins like no other token. -/
theorem readAt?_plain {tail : List Char} (h : PlainText (d :: cs))
    (hrest : s.cursor.rest = d :: (cs ++ tail)) (hflow : s.inFlow = false)
    (hmarker : s.cursor.seesDocumentMarker = false) : s.readAt? d = s.readPlain? := by
  obtain ⟨hindicator, hword, -, -⟩ := hasMark_cons h.mark
  have hsolid : isBlankOrBreak d = false := solid_cons.1 (h.solid tail)
  have hends : d = '?' ∨ d = ':' ∨ d = '-' → s.cursor.endsWordAt 1 = false := fun hd => by
    cases cs with
    | nil => exact absurd (hword hd) (by decide)
    | cons c cs => simpa [Cursor.endsWordAt, hrest, endsWord] using hword hd
  simp only [Cursor.seesDocumentMarker, Bool.or_eq_false_iff] at hmarker
  have hmust : ∀ e, e = '?' ∨ e = ':' ∨ e = '-' → ¬ (d = e ∧ s.cursor.endsWordAt 1 = true) := by
    rintro e he ⟨rfl, hword⟩
    rw [hends he] at hword
    cases hword
  simp only [Yaml.isIndicator, List.contains_eq_mem, decide_eq_false_iff_not] at hindicator
  simp only [String.reduceToList, List.mem_cons, List.not_mem_nil, or_false, not_or] at hindicator
  have hbegins : s.beginsPlain d = true := by
    by_cases hdash : d = '-'
    · simp [beginsPlain, isIndicator, isBlankOrBreak, isBreak, hdash, hends (.inr (.inr hdash))]
    · by_cases hask : d = '?' ∨ d = ':'
      · have hword := hends (hask.imp_right .inl)
        simp [beginsPlain, hsolid, isIndicator, hindicator, hdash, hflow, hword]
      · simp [beginsPlain, hsolid, isIndicator, hindicator, hdash, hask]
  simp [readAt?, hmarker, hindicator, hflow, hbegins, hmust]

end Kinds

/-! ## The end -/

/-- **The whole text has been read**, as the tokens given. -/
structure Finished (s : Lexer) (ts : List Token) : Prop where
  ended : s.ended = true
  possible : s.possible = none
  outerPossible : s.outerPossible = []
  tokens : s.tokens = ts

theorem close_possible (column : Int) : (s.close column).possible = s.possible
    ∧ (s.close column).outerPossible = s.outerPossible := by
  unfold close
  split <;> exact ⟨rfl, rfl⟩

/-- The end of the text ends all blocks. -/
theorem readEnd?_of_none (hpossible : s.possible = none) (houter : s.outerPossible = []) :
    ∃ t, s.readEnd? = some t ∧ Finished t ((s.close (-1)).tokens ++ [.streamEnd]) := by
  obtain ⟨hclose, hcloseOuter⟩ := close_possible (s := s) (-1)
  rw [readEnd?, giveUp?, hclose, hpossible, if_neg (by simp)]
  exact ⟨_, rfl, rfl, rfl, hcloseOuter.trans houter, rfl⟩

theorem Finished.fresh {ts : List Token} (h : Finished s ts) : s.Fresh :=
  fresh_of_reach (by simp [h.possible]) (by simp [h.outerPossible])

theorem ofText_of_unmarked {text : List Char}
    (hmark : ∀ c ∈ text.head?, isByteOrderMark c = false) : Token.ofText text
      = if text.all isAllowed then deliver (8 * text.length + 16) 0 (start text) else [] := by
  cases text with
  | nil => rfl
  | cons c rest => simp only [Token.ofText, hmark c rfl, Bool.false_eq_true, if_false]

/-- **A text that is read to its end** has the tokens that were read. -/
theorem ofText_of_finished {text : List Char} {n : Nat} {ts : List Token}
    (hallowed : ∀ c ∈ text, isAllowed c = true)
    (hmark : ∀ c ∈ text.head?, isByteOrderMark c = false) (hreads : Reads n (start text) t)
    (hfinished : Finished t ts) (hlength : ts.length ≤ 4 * text.length + 7) :
    Token.ofText text = ts := by
  have hgrows := hreads.grows
  rw [hfinished.tokens] at hgrows
  have hwaits := waitsAt_of_none hfinished.possible hfinished.outerPossible
  rw [ofText_of_unmarked hmark, if_pos (List.all_eq_true.2 hallowed),
    deliver_of_reads hreads hfinished.ended hfinished.fresh hwaits _ _ (by
      rw [hfinished.tokens]
      omega), hfinished.tokens]

end RegistryFleet.Yaml.Lexer
