import RegistryFleet.Proofs.Yaml.Quoted

/-!
# Proofs/Yaml/Plain — a text without quotes comes back as it was

A text stands without quotes only where no mark of the format can be seen in it: no colon at the end
of a word, no number sign at the beginning of one, nothing at its own beginning that would start
another token. So the reader takes it word by word up to its end, which is the colon behind a key or
the end of the line behind a value.

* `PlainText` — a text that may stand without quotes.
* `plain?_key`, `plain?_line` — what is read of one in front of a colon and at the end of a line.
-/

namespace RegistryFleet.Yaml

open Lexeme

variable {tail text : List Char} {gap : Gap} {i l k : Nat}

/-! ## Texts without quotes -/

/-- **A text that may stand without quotes.** -/
structure PlainText (cs : List Char) : Prop where
  ne_nil : cs ≠ []
  printable : ∀ c ∈ cs, isPrintable c = true
  line : ∀ c ∈ cs, isBreak c = false
  first : cs.head? ≠ some ' '
  last : cs.getLast? ≠ some ' '
  mark : hasMark cs = false

theorem plainText_of_allowed {cs : List Char} (hne : cs ≠ []) (h : plainAllowed cs = true) :
    PlainText cs := by
  simp only [plainAllowed, isSpecial, hasLooseEnd, Bool.and_eq_true, Bool.not_eq_true',
    Bool.or_eq_false_iff, Bool.not_eq_false'] at h
  obtain ⟨⟨⟨⟨-, hprint⟩, hline⟩, hfirst, hlast⟩, hmark⟩ := h
  refine ⟨hne, List.all_eq_true.1 hprint, fun c hc => ?_, fun he => ?_, fun he => ?_, hmark⟩
  · exact Bool.eq_false_iff.2 fun hbreak =>
      Bool.eq_false_iff.1 hline (List.any_eq_true.2 ⟨c, hc, hbreak⟩)
  · rw [he] at hfirst
    cases hfirst
  · rw [he] at hlast
    cases hlast

namespace PlainText

variable {cs : List Char}

theorem blank_iff (h : PlainText cs) {c : Char} (hc : c ∈ cs) :
    isBlankOrBreak c = (c == ' ') := by
  rw [isBlankOrBreak_of_isPrintable (h.printable c hc), h.line c hc, Bool.or_false]

theorem solid (h : PlainText cs) (r : List Char) : Solid (cs ++ r) := by
  obtain ⟨c, cs', rfl⟩ := List.exists_cons_of_ne_nil h.ne_nil
  rw [List.cons_append, solid_cons, h.blank_iff List.mem_cons_self]
  exact beq_false_of_ne fun he => h.first (he ▸ rfl)

end PlainText

/-! ## Words -/

theorem plainWord?_blank {d : Char} (hd : isBlankOrBreak d = true) (flow : Bool) :
    plainWord? flow (d :: tail) = some [] := by
  rw [plainWord?, if_pos hd]

theorem plainWord?_colon {d : Char} (hd : isBlankOrBreak d = true) :
    plainWord? false (':' :: d :: tail) = some [] := by
  simp [plainWord?, hd, show isBlankOrBreak ':' = false from rfl]

/-- **A word of a text without marks** is read up to where a word can end. -/
theorem plainWord?_word : ∀ (w s : List Char) (before : Char),
    hasInnerMark before (w ++ s) = false → (∀ c ∈ w, isBlankOrBreak c = false) →
    plainWord? false (s ++ tail) = some [] → plainWord? false (w ++ (s ++ tail)) = some w
  | [], s, _, _, _, hs => hs
  | c :: w, s, before, hmark, hw, hs => by
      obtain ⟨hc, hw⟩ := List.forall_mem_cons.1 hw
      rw [List.cons_append, hasInnerMark, Bool.or_eq_false_iff, Bool.or_eq_false_iff] at hmark
      have ih := plainWord?_word w s c hmark.2 hw hs
      have hcolon : (c == ':' && (w ++ (s ++ tail)).head?.all isBlankOrBreak) = false := by
        by_cases hc' : c = ':'
        · have hend : endsWord (w ++ s) = false := by simpa [hc'] using hmark.1.1
          rw [← List.append_assoc]
          cases hws : w ++ s with
          | nil => rw [hws] at hend; cases hend
          | cons d r =>
            rw [hws] at hend
            simpa [endsWord, hc'] using hend
        · simp [hc']
      rw [List.cons_append, plainWord?, if_neg (by simp [hc])]
      simp only [Bool.false_and, Bool.false_eq_true, if_false, hcolon, ih, Option.map_some]

/-! ## Words and gaps -/

/-- What is read behind a word: a gap and what follows it, or nothing more. -/
def afterWord (indent steps : Nat) (text : List Char) (c : Cursor) : Option PlainLexeme :=
  if c.rest.head?.any fun d => isBlankChar d || isBreak d then
    (c.gap (some indent) Gap.none).bind fun (gap, c) =>
      if c.column < indent then some ⟨text, c, gap.breaks⟩
      else plainWords? false indent steps text gap c
  else some ⟨text, c, false⟩

theorem plainWords?_word {indent steps : Nat} {w : List Char} (hne : w ≠ [])
    (hmarker : (⟨w ++ tail, i, l, k⟩ : Cursor).seesDocumentMarker = false)
    (hsharp : w.head? ≠ some '#') (hword : plainWord? false (w ++ tail) = some w) :
    plainWords? false indent (steps + 1) text gap ⟨w ++ tail, i, l, k⟩
      = afterWord indent steps (text ++ gap.fold ++ w)
          ⟨tail, i + w.length, l, k + w.length⟩ := by
  have hsees : (⟨w ++ tail, i, l, k⟩ : Cursor).sees 0 '#' = false := by
    obtain ⟨c, w, rfl⟩ := List.exists_cons_of_ne_nil hne
    simpa [Cursor.sees] using hsharp
  have hempty : w.isEmpty = false := by simpa using hne
  rw [plainWords?, hmarker, hsees]
  simp only [Bool.or_self, Bool.false_eq_true, if_false, hword, Option.bind_eq_bind,
    Option.bind_some, hempty, Cursor.advance_append, afterWord, Bool.not_false, Bool.true_and,
    decide_eq_true_eq]
  rfl

/-- Behind spaces the next word is read. -/
theorem afterWord_spaces {indent steps n : Nat} (hsolid : Solid tail) (hk : indent ≤ k) :
    afterWord indent steps text ⟨List.replicate (n + 1) ' ' ++ tail, i, l, k⟩
      = plainWords? false indent steps text ⟨List.replicate (n + 1) ' ', none, []⟩
          ⟨tail, i + (n + 1), l, k + (n + 1)⟩ := by
  have hgap : (⟨List.replicate (n + 1) ' ' ++ tail, i, l, k⟩ : Cursor).gap (some indent) Gap.none
      = _ := Cursor.gap_spaces hsolid (n + 1)
  rw [afterWord, if_pos (by rfl), hgap, Option.bind_some]
  exact if_neg (by simp only; omega)

/-- **The end of the line** ends a text, if the next line is not indented further. -/
theorem afterWord_line {indent steps m : Nat} (hsolid : Solid tail) (hm : m < indent) :
    afterWord indent steps text ⟨'\n' :: (List.replicate m ' ' ++ tail), i, l, k⟩
      = some ⟨text, ⟨tail, i + 1 + m, l + 1, m⟩, true⟩ := by
  have hgap : (⟨'\n' :: [] ++ (List.replicate m ' ' ++ tail), i, l, k⟩ : Cursor).gap (some indent)
      Gap.none = _ := Cursor.gap_breaks rfl (by simp) hsolid m
  rw [afterWord, if_pos (by rfl)]
  simp only [List.singleton_append] at hgap
  rw [hgap, Option.bind_some]
  exact if_pos hm

theorem afterWord_solid {indent steps : Nat} (h : Solid tail) :
    afterWord indent steps text ⟨tail, i, l, k⟩ = some ⟨text, ⟨tail, i, l, k⟩, false⟩ := by
  refine if_neg ?_
  cases tail with
  | nil => simp
  | cons d tail =>
    have hd := solid_cons.1 h
    simp [isBlankChar_of_solid hd, isBreak_of_solid hd]

/-! ## Whole texts -/

theorem hasInnerMark_of_append : ∀ {front r : List Char} {before c : Char},
    hasInnerMark before (front ++ c :: r) = false → hasInnerMark c r = false
  | [], _, _, _, h => (Bool.or_eq_false_iff.1 h).2
  | _ :: _, _, _, _, h => hasInnerMark_of_append (Bool.or_eq_false_iff.1 h).2

/-- **What is left of a text** at the beginning of one of its words. -/
structure AtWord (cs : List Char) : Prop where
  ne_nil : cs ≠ []
  blank : ∀ c ∈ cs, isBlankOrBreak c = (c == ' ')
  first : cs.head? ≠ some ' '
  last : cs.getLast? ≠ some ' '
  mark : hasInnerMark ' ' cs = false

namespace AtWord

variable {cs : List Char}

theorem solid (h : AtWord cs) (r : List Char) : Solid (cs ++ r) := by
  obtain ⟨c, cs', rfl⟩ := List.exists_cons_of_ne_nil h.ne_nil
  rw [List.cons_append, solid_cons, h.blank c List.mem_cons_self]
  exact beq_false_of_ne fun he => h.first (he ▸ rfl)

theorem sharp (h : AtWord cs) : cs.head? ≠ some '#' := fun he => by
  obtain ⟨r, rfl⟩ := List.head?_eq_some_iff.1 he
  exact absurd h.mark (by simp [hasInnerMark, show isBlankOrBreak ' ' = true from rfl])

/-- **The first word**: it is all that is left, or spaces and a further word follow it. -/
theorem word (h : AtWord cs) : ∃ w r, cs = w ++ r ∧ w ≠ [] ∧ (∀ c ∈ w, isBlankOrBreak c = false)
    ∧ (r = [] ∨ ∃ n next, r = List.replicate (n + 1) ' ' ++ next ∧ AtWord next) := by
  obtain ⟨w, g, next, rfl, hw, hg, hnext, hend⟩ := exists_word_gap (· == ' ') cs
  have hwords : ∀ c ∈ w, isBlankOrBreak c = false := fun c hc =>
    (h.blank c (List.mem_append_left _ hc)).trans (hw c hc)
  have hne : w ≠ [] := fun he => by
    subst he
    cases g with
    | nil => exact h.ne_nil (hend rfl)
    | cons d g => exact h.first (congrArg some (beq_iff_eq.1 (hg d List.mem_cons_self)))
  refine ⟨w, g ++ next, rfl, hne, hwords, ?_⟩
  cases g with
  | nil => exact .inl (hend rfl)
  | cons d g =>
    have hgap : d :: g = List.replicate (g.length + 1) ' ' :=
      List.eq_replicate_iff.2 ⟨rfl, fun c hc => beq_iff_eq.1 (hg c hc)⟩
    have hnextNe : next ≠ [] := fun he => h.last (by
      subst he
      rw [List.append_nil, List.getLast?_append_of_ne_nil _ (List.cons_ne_nil _ _), hgap,
        List.replicate_succ', List.getLast?_concat])
    refine .inr ⟨g.length, next, by rw [hgap], hnextNe, fun c hc => ?_, fun he => ?_,
      fun he => ?_, ?_⟩
    · exact h.blank c (List.mem_append_right _ (List.mem_append_right _ hc))
    · exact absurd (hnext ' ' he) (by decide)
    · refine h.last ?_
      rw [List.getLast?_append_of_ne_nil _ (List.append_ne_nil_of_right_ne_nil _ hnextNe),
        List.getLast?_append_of_ne_nil _ hnextNe, he]
    · have hmark := h.mark
      rw [hgap, List.replicate_succ', List.append_assoc, ← List.append_assoc] at hmark
      exact hasInnerMark_of_append hmark

end AtWord

/-- **A text is read to its end**, its words and the spaces between them. -/
theorem plainWords?_text (indent : Nat) (hstop : plainWord? false tail = some []) :
    ∀ (steps : Nat) (cs text : List Char) (gap : Gap) (i l k : Nat), AtWord cs →
    cs.length ≤ steps → (⟨cs ++ tail, i, l, k⟩ : Cursor).seesDocumentMarker = false →
    indent ≤ k + 1 → ∃ more, plainWords? false indent (steps + 1) text gap ⟨cs ++ tail, i, l, k⟩
      = afterWord indent more (text ++ gap.fold ++ cs) ⟨tail, i + cs.length, l, k + cs.length⟩
  | steps, cs, text, gap, i, l, k, h, hsteps, hmarker, hk => by
      obtain ⟨w, r, rfl, hne, hw, hr⟩ := h.word
      have hlength := List.length_pos_iff.2 hne
      have hsharp : w.head? ≠ some '#' := fun he => h.sharp (by
        rw [List.head?_append_of_ne_nil _ hne, he])
      rw [List.append_assoc] at hmarker ⊢
      rcases hr with rfl | ⟨n, next, rfl, hnext⟩
      · have hword := plainWord?_word w [] ' ' h.mark hw hstop
        refine ⟨steps, (plainWords?_word hne hmarker hsharp hword).trans ?_⟩
        rw [List.append_nil, List.nil_append]
      · have hblank : plainWord? false (List.replicate (n + 1) ' ' ++ next ++ tail) = some [] :=
          plainWord?_blank rfl _
        have hword := plainWord?_word w _ ' ' h.mark hw hblank
        simp only [List.length_append, List.length_replicate] at hsteps
        obtain ⟨steps, rfl⟩ : ∃ s, steps = s + 1 := ⟨steps - 1, by omega⟩
        obtain ⟨more, hmore⟩ := plainWords?_text indent hstop steps next (text ++ gap.fold ++ w)
          ⟨List.replicate (n + 1) ' ', none, []⟩ (i + w.length + (n + 1)) l
          (k + w.length + (n + 1)) hnext (by omega)
          (seesDocumentMarker_of_column (Nat.succ_ne_zero _)) (by omega)
        refine ⟨more, (plainWords?_word hne hmarker hsharp hword).trans ?_⟩
        rw [List.append_assoc (List.replicate _ _), afterWord_spaces (hnext.solid tail) (by omega),
          hmore]
        simp only [List.length_append, List.length_replicate, List.append_assoc, Gap.fold,
          Nat.add_assoc]

/-! ## The beginning of a text -/

/-- What a text without marks does not begin with. -/
theorem hasMark_cons {c : Char} {cs : List Char} (h : hasMark (c :: cs) = false) :
    isIndicator c = false ∧ (c = '?' ∨ c = ':' ∨ c = '-' → endsWord cs = false)
      ∧ hasInnerMark c cs = false ∧ ¬ ∃ d r, (d = '-' ∨ d = '.') ∧ c :: cs = d :: d :: d :: r := by
  rw [hasMark.eq_def] at h
  split at h
  · next he => cases he
  · cases h
  · cases h
  · next hdash hdot he =>
    obtain ⟨rfl, rfl⟩ := List.cons.inj he
    simp only [Bool.or_eq_false_iff] at h
    refine ⟨h.1.1, fun hc => ?_, h.2, ?_⟩
    · have hmember : ['?', ':', '-'].contains c = true := by
        rcases hc with rfl | rfl | rfl <;> rfl
      simpa only [hmember, Bool.true_and] using h.1.2
    · rintro ⟨d, r, rfl | rfl, he⟩
      · exact hdash r (List.cons.inj he).1 (List.cons.inj he).2
      · exact hdot r (List.cons.inj he).1 (List.cons.inj he).2

namespace PlainText

variable {cs : List Char}

theorem atWord (h : PlainText cs) : AtWord cs := by
  refine ⟨h.ne_nil, fun c hc => h.blank_iff hc, h.first, h.last, ?_⟩
  obtain ⟨c, cs, rfl⟩ := List.exists_cons_of_ne_nil h.ne_nil
  obtain ⟨hindicator, hend, hmark, -⟩ := hasMark_cons h.mark
  have hsharp : c ≠ '#' := fun he => absurd (he ▸ hindicator) (by decide)
  rw [hasInnerMark, hmark, beq_false_of_ne hsharp]
  by_cases hcolon : c = ':'
  · simp [hend (.inr (.inl hcolon))]
  · simp [hcolon]

/-- A key at the beginning of a line is no mark of a document. -/
theorem seesDocumentMarker (h : PlainText cs) :
    (⟨cs ++ ':' :: tail, i, l, k⟩ : Cursor).seesDocumentMarker = false := by
  have hmark : ∀ d, d = '-' ∨ d = '.' →
      (⟨cs ++ ':' :: tail, i, l, k⟩ : Cursor).seesMarker d = false := fun d hd => by
    have hcolon : ':' ≠ d := by rcases hd with rfl | rfl <;> decide
    refine Bool.eq_false_iff.2 fun hsees => ?_
    simp only [Cursor.seesMarker, Cursor.sees, Bool.and_eq_true, beq_iff_eq] at hsees
    obtain ⟨⟨⟨⟨-, h0⟩, h1⟩, h2⟩, -⟩ := hsees
    obtain ⟨a, cs, rfl⟩ := List.exists_cons_of_ne_nil h.ne_nil
    obtain ⟨-, -, -, htriple⟩ := hasMark_cons h.mark
    rcases cs with _ | ⟨b, _ | ⟨c, r⟩⟩
    · exact hcolon (Option.some.inj h1)
    · exact hcolon (Option.some.inj h2)
    · have ha : a = d := Option.some.inj h0
      have hb : b = d := Option.some.inj h1
      have hc : c = d := Option.some.inj h2
      exact htriple ⟨d, r, hd, by rw [ha, hb, hc]⟩
  rw [Cursor.seesDocumentMarker, hmark _ (.inl rfl), hmark _ (.inr rfl)]
  rfl

end PlainText

/-! ## Plain scalars -/

/-- **A key** without quotes, with the cursor at its colon. -/
theorem plain?_key {cs : List Char} (h : PlainText cs) {d : Char} (hd : isBlankOrBreak d = true)
    {indent : Nat} (hk : indent ≤ k + 1) :
    plain? false indent ⟨cs ++ ':' :: d :: tail, i, l, k⟩
      = some ⟨cs, ⟨':' :: d :: tail, i + cs.length, l, k + cs.length⟩, false⟩ := by
  obtain ⟨more, hread⟩ := plainWords?_text indent (plainWord?_colon hd) _ cs [] Gap.none i l k
    h.atWord (show cs.length ≤ (cs ++ ':' :: d :: tail).length by simp) h.seesDocumentMarker hk
  rw [plain?, hread, afterWord_solid (solid_cons.2 rfl)]
  rfl

/-- **A value** without quotes, with the cursor at the text of the next line. -/
theorem plain?_line {cs : List Char} (h : PlainText cs) (hsolid : Solid tail) {indent m : Nat}
    (hm : m < indent) (hk : indent ≤ k) :
    plain? false indent ⟨cs ++ '\n' :: (List.replicate m ' ' ++ tail), i, l, k⟩
      = some ⟨cs, ⟨tail, i + cs.length + 1 + m, l + 1, m⟩, true⟩ := by
  have hstop : plainWord? false ('\n' :: (List.replicate m ' ' ++ tail)) = some [] :=
    plainWord?_blank rfl false
  obtain ⟨more, hread⟩ := plainWords?_text indent hstop _ cs [] Gap.none i l k h.atWord
    (show cs.length ≤ (cs ++ '\n' :: (List.replicate m ' ' ++ tail)).length by simp)
    (seesDocumentMarker_of_column (by simp only; omega)) (by omega)
  rw [plain?, hread, afterWord_line hsolid hm]
  rfl

end RegistryFleet.Yaml
