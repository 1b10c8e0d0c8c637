import RegistryFleet.Json.Writer
import RegistryFleet.Proofs.Text.ReadBack
import RegistryFleet.Proofs.Yaml.Gap
import RegistryFleet.Yaml.Lexeme

/-!
# Proofs/Yaml/Quoted — what stands between quotes comes back as it was

A text between quotes is written character by character, and read word by word with gaps between.
The writer's images of characters are of two kinds: one that the reader of a word takes in one step,
and a space or break that stands for itself in a gap. With that the three ways to write between
quotes are read by one argument.

* `ReadsAs` — an image that is read as a character in one step.
* `Legible` — a text all of whose characters are of one of the two kinds.
* `quotedWords?_indented` — a legible text comes back, its further lines indented or not.
-/

namespace RegistryFleet.Yaml

open Lexeme

/-! ## Words -/

namespace Lexeme

/-- The quote. -/
def quoteMark (single : Bool) : Char := if single then '\'' else '"'

/-- The reader of a word. -/
def word? (single : Bool) (steps : Nat) (text : List Char) (c : Cursor) :
    Option (List Char × QuotedEnd × Cursor) :=
  if single then singleWord? steps text c else doubleWord? steps text c

end Lexeme

variable {single : Bool} {text tail : List Char} {i l k : Nat}

theorem singleWord?_of_ne {d : Char} (hquote : d ≠ '\'') (steps : Nat) :
    singleWord? (steps + 1) text ⟨d :: tail, i, l, k⟩
      = if isBlankOrBreak d then some (text, .gap, ⟨d :: tail, i, l, k⟩)
        else singleWord? steps (text ++ [d]) ⟨tail, i + 1, l, k + 1⟩ := by
  rw [singleWord?]
  split
  · next he => cases he
  · next he => exact absurd (List.cons.inj he).1 hquote
  · next he => exact absurd (List.cons.inj he).1 hquote
  · next he =>
    obtain ⟨rfl, rfl⟩ := List.cons.inj he
    rfl

theorem doubleWord?_of_ne {d : Char} (hquote : d ≠ '"') (hslash : d ≠ '\\') (steps : Nat) :
    doubleWord? (steps + 1) text ⟨d :: tail, i, l, k⟩
      = if isBlankOrBreak d then some (text, .gap, ⟨d :: tail, i, l, k⟩)
        else doubleWord? steps (text ++ [d]) ⟨tail, i + 1, l, k + 1⟩ := by
  rw [doubleWord?]
  split
  · next he => cases he
  · next he => exact absurd (List.cons.inj he).1 hquote
  · next he => exact absurd (List.cons.inj he).1 hslash
  · next he =>
    obtain ⟨rfl, rfl⟩ := List.cons.inj he
    rfl

theorem word?_gap {d : Char} (hd : isBlankOrBreak d = true) (steps : Nat) :
    word? single (steps + 1) text ⟨d :: tail, i, l, k⟩
      = some (text, .gap, ⟨d :: tail, i, l, k⟩) := by
  have hne : ∀ e : Char, isBlankOrBreak e = false → d ≠ e := fun e he h => by
    rw [h, he] at hd
    cases hd
  cases single with
  | true =>
    change singleWord? _ _ _ = _
    rw [singleWord?_of_ne (hne _ rfl), if_pos hd]
  | false =>
    change doubleWord? _ _ _ = _
    rw [doubleWord?_of_ne (hne _ rfl) (hne _ rfl), if_pos hd]

theorem word?_closed (htail : tail.head? ≠ some '\'') (steps : Nat) :
    word? single (steps + 1) text ⟨quoteMark single :: tail, i, l, k⟩
      = some (text, .closed, ⟨tail, i + 1, l, k + 1⟩) := by
  cases single with
  | false => rfl
  | true =>
    cases tail with
    | nil => rfl
    | cons d tail =>
      have hd : d ≠ '\'' := fun he => htail (he ▸ rfl)
      simp [word?, quoteMark, singleWord?, hd, Cursor.advance]

/-- **An image is read as a character** in one step, wherever it stands. -/
structure ReadsAs (single : Bool) (image : List Char) (c : Char) : Prop where
  solid : ∃ d ds, image = d :: ds ∧ isBlankOrBreak d = false
  line : ∀ d ∈ image, isBreak d = false
  reads : ∀ (steps : Nat) (text tail : List Char) (i l k : Nat),
    word? single (steps + 1) text ⟨image ++ tail, i, l, k⟩
      = word? single steps (text ++ [c]) ⟨tail, i + image.length, l, k + image.length⟩

theorem word?_images {image : Char → List Char} (steps : Nat) : ∀ (w text : List Char) (i k : Nat),
    (∀ c ∈ w, ReadsAs single (image c) c) →
    word? single (steps + w.length) text ⟨w.flatMap image ++ tail, i, l, k⟩
      = word? single steps (text ++ w)
          ⟨tail, i + (w.flatMap image).length, l, k + (w.flatMap image).length⟩
  | [], text, i, k, _ => by simp
  | c :: w, text, i, k, h => by
      have hc := h c List.mem_cons_self
      rw [List.length_cons, ← Nat.add_assoc, List.flatMap_cons, List.append_assoc, hc.reads,
        word?_images steps w _ _ _ fun d hd => h d (List.mem_cons_of_mem _ hd), List.append_assoc,
        List.singleton_append, List.length_append, Nat.add_assoc, Nat.add_assoc]

theorem length_le_of_readsAs {image : Char → List Char} : ∀ {w : List Char},
    (∀ c ∈ w, ReadsAs single (image c) c) → w.length ≤ (w.flatMap image).length
  | [], _ => Nat.le_refl _
  | c :: w, h => by
      obtain ⟨d, ds, himage, -⟩ := (h c List.mem_cons_self).solid
      have ih := length_le_of_readsAs fun d hd => h d (List.mem_cons_of_mem _ hd)
      rw [List.flatMap_cons, himage]
      simp only [List.length_cons, List.length_append]
      omega

/-- The first word behind a cursor that stands inside the quotes. -/
theorem word?_rest {image : Char → List Char} {w : List Char}
    (hw : ∀ c ∈ w, ReadsAs single (image c) c) :
    word? single ((w.flatMap image ++ tail).length + 1) text ⟨w.flatMap image ++ tail, i, l, k⟩
      = word? single ((w.flatMap image).length - w.length + tail.length + 1) (text ++ w)
          ⟨tail, i + (w.flatMap image).length, l, k + (w.flatMap image).length⟩ := by
  have hlength := length_le_of_readsAs hw
  have hsteps : (w.flatMap image ++ tail).length + 1
      = (w.flatMap image).length - w.length + tail.length + 1 + w.length := by
    rw [List.length_append]
    omega
  rw [hsteps, word?_images _ w _ _ _ hw]

/-! ## Words and gaps -/

/-- Behind the first column no mark of a document is seen. -/
theorem seesDocumentMarker_of_column {c : Cursor} (h : c.column ≠ 0) :
    c.seesDocumentMarker = false := by
  simp [Cursor.seesDocumentMarker, Cursor.seesMarker, h]

theorem quotedWords?_succ (hk : k ≠ 0) (htail : tail ≠ []) (steps : Nat) :
    quotedWords? single (steps + 1) text ⟨tail, i, l, k⟩
      = (word? single (tail.length + 1) text ⟨tail, i, l, k⟩).bind fun (text, ending, c) =>
          match ending with
          | .closed => some (text, c)
          | .gap => (c.gap none Gap.none).bind fun (gap, c) =>
              quotedWords? single steps (text ++ gap.fold) c
          | .hiddenBreak =>
            if c.sees 0 '"' then some (text, c.advance 1)
            else (c.gap none Gap.afterHiddenBreak).bind fun (gap, c) =>
              quotedWords? single steps (text ++ gap.fold) c := by
  have hend : (⟨tail, i, l, k⟩ : Cursor).atEnd = false := by simp [Cursor.atEnd, htail]
  rw [quotedWords?, seesDocumentMarker_of_column hk, hend]
  cases single <;> rfl

/-- **A text of one word.** -/
theorem quotedWords?_word {image : Char → List Char} {w : List Char}
    (hw : ∀ c ∈ w, ReadsAs single (image c) c) (htail : tail.head? ≠ some '\'') (hk : k ≠ 0)
    (steps : Nat) :
    quotedWords? single (steps + 1) text ⟨w.flatMap image ++ quoteMark single :: tail, i, l, k⟩
      = some (text ++ w, ⟨tail, i + (w.flatMap image).length + 1, l,
          k + (w.flatMap image).length + 1⟩) := by
  rw [quotedWords?_succ hk (by simp), word?_rest hw, word?_closed htail]
  rfl

/-- **A word and the gap behind it.** -/
theorem quotedWords?_gap {image : Char → List Char} {w : List Char} {d : Char} {gap : Gap}
    {next : Cursor} (hw : ∀ c ∈ w, ReadsAs single (image c) c) (hd : isBlankOrBreak d = true)
    (hk : k ≠ 0)
    (hgap : (⟨d :: tail, i + (w.flatMap image).length, l, k + (w.flatMap image).length⟩ :
      Cursor).gap none Gap.none = some (gap, next)) (steps : Nat) :
    quotedWords? single (steps + 1) text ⟨w.flatMap image ++ d :: tail, i, l, k⟩
      = quotedWords? single steps (text ++ w ++ gap.fold) next := by
  rw [quotedWords?_succ hk (by simp), word?_rest hw, word?_gap hd, Option.bind_some]
  simp only [hgap, Option.bind_some]

/-! ## Indented lines -/

/-- Text whose lines after the first are indented. -/
def indented (n : Nat) (ws : List Char) : List Char :=
  indentLines n false ws ++ if ws.getLast?.any isBreak then List.replicate n ' ' else []

theorem indentLines_append (n : Nat) {w : List Char} (hw : ∀ d ∈ w, isBreak d = false)
    (r : List Char) : indentLines n false (w ++ r) = w ++ indentLines n false r := by
  induction w with
  | nil => rfl
  | cons d w ih =>
    obtain ⟨hd, hw⟩ := List.forall_mem_cons.1 hw
    simp [indentLines, hd, ih hw]

theorem indentLines_breaks (n : Nat) (r : List Char) : ∀ {bs : List Char} (broken : Bool),
    (∀ b ∈ bs, isBreak b = true) →
    indentLines n broken (bs ++ r) = bs ++ indentLines n (broken || !bs.isEmpty) r
  | [], broken, _ => by simp
  | b :: bs, broken, h => by
      obtain ⟨hb, hbs⟩ := List.forall_mem_cons.1 h
      rw [List.cons_append, indentLines, if_pos hb, indentLines_breaks n r true hbs]
      simp

theorem indentLines_true_cons (n : Nat) {d : Char} (hd : isBreak d = false) (r : List Char) :
    indentLines n true (d :: r) = List.replicate n ' ' ++ indentLines n false (d :: r) := by
  simp [indentLines, hd]

theorem indented_append (n : Nat) {w : List Char} (hw : ∀ d ∈ w, isBreak d = false)
    (r : List Char) : indented n (w ++ r) = w ++ indented n r := by
  rw [indented, indented, indentLines_append n hw, List.append_assoc]
  rcases eq_or_ne r [] with rfl | hr
  · rw [List.append_nil]
    cases hlast : w.getLast? with
    | none => rfl
    | some d => simp [hw d (List.mem_of_getLast? hlast)]
  · rw [List.getLast?_append_of_ne_nil _ hr]

theorem indented_breaks (n : Nat) {b : Char} {bs : List Char}
    (hbs : ∀ d ∈ b :: bs, isBreak d = true)
    {r : List Char} (hr : ∀ d ∈ r.head?, isBreak d = false) :
    indented n (b :: bs ++ r) = b :: bs ++ (List.replicate n ' ' ++ indented n r) := by
  rw [indented, indented, indentLines_breaks n r false hbs]
  cases r with
  | nil =>
    have hlast : (b :: bs ++ []).getLast?.any isBreak = true := by
      rw [List.append_nil, List.getLast?_eq_some_getLast (List.cons_ne_nil b bs)]
      exact hbs _ (List.getLast_mem _)
    rw [if_pos hlast]
    simp [indentLines]
  | cons d r =>
    rw [List.getLast?_append_of_ne_nil _ (List.cons_ne_nil _ _)]
    simp only [List.isEmpty_cons, Bool.not_false, Bool.or_true]
    rw [indentLines_true_cons n (hr d rfl), List.append_assoc, List.append_assoc]

/-! ## Legible texts -/

/-- **A text that can be read back** from its images: each of its characters is read in one step, or
stands for itself in a gap. -/
structure Legible (single : Bool) (image : Char → List Char) (isGap : Char → Bool)
    (cs : List Char) : Prop where
  word : ∀ c ∈ cs, isGap c = false → ReadsAs single (image c) c
  gap : ∀ c ∈ cs, isGap c = true → image c = [c]
  kinds : ∀ g, g <:+: cs → (∀ c ∈ g, isGap c = true) →
    (∀ c ∈ g, c = ' ') ∨ ∀ c ∈ g, isKept c = true ∧ c ≠ '\n'

namespace Legible

variable {image : Char → List Char} {isGap : Char → Bool} {cs : List Char} {n : Nat}

theorem mono (h : Legible single image isGap cs) {r : List Char} (hr : r <:+: cs) :
    Legible single image isGap r where
  word c hc := h.word c (hr.subset hc)
  gap c hc := h.gap c (hr.subset hc)
  kinds g hg := h.kinds g (hg.trans hr)

theorem flatMap_gap (h : Legible single image isGap cs) (hcs : ∀ c ∈ cs, isGap c = true) :
    cs.flatMap image = cs := by
  rw [List.flatMap_congr fun c hc => h.gap c hc (hcs c hc), List.flatMap_singleton']

theorem line_of_words (h : Legible single image isGap cs) (hcs : ∀ c ∈ cs, isGap c = false) :
    ∀ d ∈ cs.flatMap image, isBreak d = false := fun d hd => by
  obtain ⟨c, hc, hd⟩ := List.mem_flatMap.1 hd
  exact (h.word c hc (hcs c hc)).line d hd

/-- What follows a gap begins a word, or closes the quotes. -/
theorem solid_rest (h : Legible single image isGap cs) (hcs : ∀ c ∈ cs.head?, isGap c = false) :
    Solid (indented n (cs.flatMap image) ++ quoteMark single :: tail) := by
  cases cs with
  | nil => cases single <;> exact solid_cons.2 rfl
  | cons c cs =>
    have hc := h.word c List.mem_cons_self (hcs c rfl)
    obtain ⟨d, ds, himage, hd⟩ := hc.solid
    rw [List.flatMap_cons, indented_append n hc.line, himage]
    exact solid_cons.2 hd

theorem line_rest (h : Legible single image isGap cs) (hcs : ∀ c ∈ cs.head?, isGap c = false) :
    ∀ e ∈ (cs.flatMap image).head?, isBreak e = false := by
  cases cs with
  | nil => simp
  | cons c cs =>
    obtain ⟨e, es, himage, he⟩ := (h.word c List.mem_cons_self (hcs c rfl)).solid
    rw [List.flatMap_cons, himage]
    simpa using isBreak_of_solid he

end Legible

/-- **A gap comes back**, and the reader stands in front of what follows it. -/
theorem gap_indented {n : Nat} (hn : n ≠ 0) {d : Char} {g ws : List Char}
    (hkinds : (∀ c ∈ d :: g, c = ' ') ∨ ∀ c ∈ d :: g, isKept c = true ∧ c ≠ '\n')
    (hsolid : Solid (indented n ws ++ tail)) (hws : ∀ e ∈ ws.head?, isBreak e = false)
    (i l k : Nat) : ∃ rest gap next, indented n (d :: g ++ ws) ++ tail = d :: rest
      ∧ isBlankOrBreak d = true
      ∧ (⟨d :: rest, i, l, k⟩ : Cursor).gap none Gap.none = some (gap, next)
      ∧ gap.fold = d :: g ∧ next.rest = indented n ws ++ tail ∧ next.column ≠ 0 := by
  rcases hkinds with hspaces | hbreaks
  · have hgap : d :: g = List.replicate (g.length + 1) ' ' :=
      List.eq_replicate_iff.2 ⟨rfl, hspaces⟩
    have hline : ∀ c ∈ d :: g, isBreak c = false := fun c hc => by rw [hspaces c hc]; rfl
    have htext : indented n (d :: g ++ ws) ++ tail = d :: g ++ (indented n ws ++ tail) := by
      rw [indented_append n hline, List.append_assoc]
    have hread : (⟨List.replicate (g.length + 1) ' ' ++ (indented n ws ++ tail), i, l, k⟩ :
        Cursor).gap none Gap.none = _ := Cursor.gap_spaces hsolid (g.length + 1)
    rw [← hgap] at hread
    refine ⟨_, _, _, htext, by rw [hspaces d List.mem_cons_self]; rfl, hread, rfl, rfl, ?_⟩
    exact Nat.succ_ne_zero _
  · have hkept := fun c hc => (hbreaks c hc).1
    have hbreak := fun c hc => isBreak_of_isKept (hkept c hc)
    have htext : indented n (d :: g ++ ws) ++ tail
        = d :: g ++ (List.replicate n ' ' ++ (indented n ws ++ tail)) := by
      rw [indented_breaks n hbreak hws, List.append_assoc, List.append_assoc]
    have hd : isBlankOrBreak d = true := by
      simp [isBlankOrBreak, hbreak d List.mem_cons_self]
    refine ⟨_, _, _, htext, hd, Cursor.gap_breaks (hkept d List.mem_cons_self)
      (fun c hc => hkept c (List.mem_cons_of_mem _ hc)) hsolid n, ?_, rfl, hn⟩
    have hd' := (hbreaks d List.mem_cons_self).2
    unfold Gap.fold
    split
    · next he => cases he
    · next he => exact absurd (List.cons.inj (Option.some.inj he)).1 hd'
    · next he => rw [← Option.some.inj he]; rfl

/-- **A legible text comes back**, whatever the indentation of its further lines. -/
theorem quotedWords?_indented {image : Char → List Char} {isGap : Char → Bool} {n : Nat}
    (hn : n ≠ 0) (htail : tail.head? ≠ some '\'') : ∀ (steps : Nat) (cs text : List Char)
    (i l k : Nat), Legible single image isGap cs → cs.length < steps → k ≠ 0 →
    ∃ next, next.rest = tail ∧ next.column ≠ 0
      ∧ quotedWords? single steps text
          ⟨indented n (cs.flatMap image) ++ quoteMark single :: tail, i, l, k⟩
        = some (text ++ cs, next)
  | 0, _, _, _, _, _, _, hsteps, _ => absurd hsteps (Nat.not_lt_zero _)
  | steps + 1, cs, text, i, l, k, h, hsteps, hk => by
      obtain ⟨w, g, r, rfl, hw, hg, hr, hend⟩ := exists_word_gap isGap cs
      have hwords := h.mono (List.prefix_append w (g ++ r)).isInfix
      have hgap := h.mono ((List.prefix_append g r).isInfix.trans (List.suffix_append w _).isInfix)
      have hrest := h.mono ((List.suffix_append g r).isInfix.trans (List.suffix_append w _).isInfix)
      have hreads : ∀ c ∈ w, ReadsAs single (image c) c := fun c hc => hwords.word c hc (hw c hc)
      rw [List.flatMap_append, indented_append n (hwords.line_of_words hw), List.append_assoc]
      cases g with
      | nil =>
        rw [hend rfl, List.append_nil, List.append_nil]
        refine ⟨_, rfl, ?_, quotedWords?_word hreads htail hk steps⟩
        exact Nat.succ_ne_zero _
      | cons d g =>
        have hlength : r.length < steps := by
          simp only [List.length_append, List.length_cons] at hsteps
          omega
        obtain ⟨rest, gap, next, htext, hd, hnext, hfold, hnextRest, hcolumn⟩ :=
          gap_indented hn (hgap.kinds _ (List.infix_refl _) hg) (hrest.solid_rest hr)
            (hrest.line_rest hr) (i + (w.flatMap image).length) l (k + (w.flatMap image).length)
        rw [List.flatMap_append, hgap.flatMap_gap hg, htext, quotedWords?_gap hreads hd hk hnext,
          hfold]
        obtain ⟨rest', i', l', k'⟩ := next
        cases hnextRest
        obtain ⟨last, hlast, hlastColumn, hread⟩ := quotedWords?_indented hn htail steps r
          (text ++ w ++ (d :: g)) i' l' k' hrest hlength hcolumn
        refine ⟨last, hlast, hlastColumn, hread.trans ?_⟩
        simp only [List.append_assoc]

/-! ## Images of characters -/

theorem readsAs_escape {e c : Char} (hescape : escapeOf? e = some c) (hline : isBreak e = false) :
    ReadsAs false ['\\', e] c where
  solid := ⟨_, _, rfl, rfl⟩
  line := by simp [hline, show isBreak '\\' = false from rfl]
  reads steps text tail i l k := by
    change doubleWord? _ _ _ = doubleWord? _ _ _
    rw [doubleWord?]
    simp only [List.cons_append, List.nil_append, hline, Bool.false_eq_true, if_false, hescape]
    rfl

/-- A character written by its number, with as many digits as its letter asks for. -/
theorem readsAs_code {e c : Char} {digits : List Char} (hescape : escapeOf? e = none)
    (hline : isBreak e = false) (hcount : codeLength? e = some digits.length)
    (hdigits : ∀ d ∈ digits, isBreak d = false) (hread : Text.readNat? 16 digits = some c.toNat) :
    ReadsAs false ('\\' :: e :: digits) c where
  solid := ⟨_, _, rfl, rfl⟩
  line := by simpa [hline, show isBreak '\\' = false from rfl] using hdigits
  reads steps text tail i l k := by
    have hpoint : codePoint? ((digits ++ tail).take digits.length) digits.length = some c := by
      have hvalid : c.toNat.isValidChar := c.valid
      rw [List.take_left' rfl, codePoint?, if_neg (not_not_intro rfl), hread]
      change (if h : c.toNat.isValidChar then some (Char.ofNatAux c.toNat h) else none) = _
      rw [dif_pos hvalid]
      exact congrArg some (Char.ext rfl)
    change doubleWord? _ _ _ = doubleWord? _ _ _
    rw [doubleWord?]
    simp only [List.cons_append, hline, Bool.false_eq_true, if_false, hescape, hcount,
      Option.bind_eq_bind, Option.bind_some, hpoint, Cursor.advance, List.length_cons]
    simp [Nat.add_comm, Nat.add_left_comm]

theorem readsAs_self {c : Char} (hsolid : isBlankOrBreak c = false)
    (hquote : c ≠ quoteMark single) (hslash : single = false → c ≠ '\\') :
    ReadsAs single [c] c where
  solid := ⟨_, _, rfl, hsolid⟩
  line := by simpa using isBreak_of_solid hsolid
  reads steps text tail i l k := by
    cases single with
    | true =>
      change singleWord? _ _ _ = _
      rw [List.singleton_append, singleWord?_of_ne hquote, if_neg (by simp [hsolid])]
      rfl
    | false =>
      change doubleWord? _ _ _ = _
      rw [List.singleton_append, doubleWord?_of_ne hquote (hslash rfl), if_neg (by simp [hsolid])]
      rfl

/-! ## What the writers put between quotes -/

/-- The images between single quotes. -/
def singleImage (c : Char) : List Char := if c = '\'' then ['\'', '\''] else [c]

/-- Outside escapes a character of a word is one that stands for itself. -/
theorem isBlankOrBreak_of_isPrintable {c : Char} (h : isPrintable c = true) :
    isBlankOrBreak c = (c == ' ' || isBreak c) := by
  have htab : c ≠ '\t' := fun he => absurd (he ▸ h) (by decide)
  have hnul : c.toNat ≠ 0 := fun he => by
    unfold isPrintable at h
    rw [he] at h
    exact absurd h (by decide)
  rw [isBlankOrBreak, beq_false_of_ne htab, beq_false_of_ne hnul, Bool.or_false, Bool.or_false]

theorem readsAs_singleImage {c : Char} (h : isBlankOrBreak c = false) :
    ReadsAs true (singleImage c) c := by
  unfold singleImage
  split
  · next he =>
    subst he
    refine ⟨⟨_, _, rfl, rfl⟩, List.forall_mem_cons.2 ⟨rfl, by simp [isBreak]⟩,
      fun steps text tail i l k => ?_⟩
    change singleWord? _ _ _ = singleWord? _ _ _
    rw [singleWord?]
    rfl
  · next he => exact readsAs_self h he fun h => absurd h (by decide)

private theorem upperHex_line {width n : Nat} : ∀ d ∈ Text.upperHex width n, isBreak d = false :=
  fun d hd => by
    obtain ⟨v, hv, rfl⟩ := Text.exists_of_mem_upperHex hd
    exact (by decide : ∀ v < 16, isBreak (Text.upperDigit v) = false) v hv

private theorem lowerHex_line {width n : Nat} : ∀ d ∈ Text.lowerHex width n, isBreak d = false :=
  fun d hd => by
    obtain ⟨v, hv, rfl⟩ := Text.exists_of_mem_lowerHex hd
    exact (by decide : ∀ v < 16, isBreak (Text.lowerDigit v) = false) v hv

theorem readsAs_upperHex {e c : Char} {width : Nat} (hescape : escapeOf? e = none)
    (hline : isBreak e = false) (hcount : codeLength? e = some width) (hwidth : width ≠ 0)
    (hc : c.toNat < 16 ^ width) :
    ReadsAs false ('\\' :: e :: Text.upperHex width c.toNat) c :=
  readsAs_code hescape hline (by rw [Text.length_upperHex, hcount]) upperHex_line
    (Text.readNat?_upperHex hwidth hc)

/-- A character that one letter escapes, known by its number. -/
theorem readsAs_letter {e d c : Char} (hc : c.toNat = d.toNat) (hescape : escapeOf? e = some d)
    (hline : isBreak e = false) : ReadsAs false ['\\', e] c := by
  rw [Char.toNat_inj.1 hc]
  exact readsAs_escape hescape hline

theorem readsAs_ite {p : Prop} [Decidable p] {a b : List Char} {c : Char}
    (ha : p → ReadsAs single a c) (hb : ¬ p → ReadsAs single b c) :
    ReadsAs single (if p then a else b) c := by
  split
  · next h => exact ha h
  · next h => exact hb h

/-- **Between double quotes** every character but a space is read in one step. -/
theorem readsAs_doubleEscaped {c : Char} (hspace : c ≠ ' ') :
    ReadsAs false (doubleEscaped c) c := by
  have hsize : c.toNat < 0x110000 := by
    have hvalid : c.toNat.isValidChar := c.valid
    unfold Nat.isValidChar at hvalid
    omega
  unfold doubleEscaped
  refine readsAs_ite (fun h0 => readsAs_letter (d := '\x00') h0 rfl rfl) fun h0 => ?_
  refine readsAs_ite (fun h7 => readsAs_letter (d := '\x07') h7 rfl rfl) fun h7 => ?_
  refine readsAs_ite (fun h8 => readsAs_letter (d := '\x08') h8 rfl rfl) fun h8 => ?_
  refine readsAs_ite (fun h9 => readsAs_letter (d := '\t') h9 rfl rfl) fun h9 => ?_
  refine readsAs_ite (fun h10 => readsAs_letter (d := '\n') h10 rfl rfl) fun h10 => ?_
  refine readsAs_ite (fun h11 => readsAs_letter (d := '\x0b') h11 rfl rfl) fun h11 => ?_
  refine readsAs_ite (fun h12 => readsAs_letter (d := '\x0c') h12 rfl rfl) fun h12 => ?_
  refine readsAs_ite (fun h13 => readsAs_letter (d := '\r') h13 rfl rfl) fun h13 => ?_
  refine readsAs_ite (fun h1B => readsAs_letter (d := '\x1b') h1B rfl rfl) fun h1B => ?_
  refine readsAs_ite (fun hquote => readsAs_letter (d := '"') (hquote ▸ rfl) rfl rfl)
    fun hquote => ?_
  refine readsAs_ite (fun hslash => readsAs_letter (d := '\\') (hslash ▸ rfl) rfl rfl)
    fun hslash => ?_
  refine readsAs_ite (fun h85 => readsAs_letter (d := '\u0085') h85 rfl rfl) fun h85 => ?_
  refine readsAs_ite (fun h2028 => readsAs_letter (d := '\u2028') h2028 rfl rfl) fun h2028 => ?_
  refine readsAs_ite (fun h2029 => readsAs_letter (d := '\u2029') h2029 rfl rfl) fun h2029 => ?_
  refine readsAs_ite (fun hprint => readsAs_self ?_ hquote fun _ => hslash) fun _ => ?_
  · rw [isBlankOrBreak_of_isPrintable hprint]
    have hlf : c ≠ '\n' := fun he => h10 (by rw [he]; rfl)
    have hcr : c ≠ '\r' := fun he => h13 (by rw [he]; rfl)
    simp [isBreak, hspace, hlf, hcr, h85, h2028, h2029]
  refine readsAs_ite (fun hx => ?_) fun _ => readsAs_ite (fun hu => ?_) fun _ => ?_
  · exact readsAs_upperHex rfl rfl rfl (by decide) (by omega)
  · exact readsAs_upperHex rfl rfl rfl (by decide) (by omega)
  · exact readsAs_upperHex rfl rfl rfl (by decide) (by omega)

/-- **A JSON string** reads as YAML, but for the breaks that JSON leaves as they are. -/
theorem readsAs_escaped {c : Char} (hspace : c ≠ ' ') (hbreak : 32 ≤ c.toNat → isBreak c = false) :
    ReadsAs false (Json.escaped c) c := by
  unfold Json.escaped
  split
  · exact readsAs_escape rfl rfl
  · exact readsAs_escape rfl rfl
  · exact readsAs_escape rfl rfl
  · exact readsAs_escape rfl rfl
  · exact readsAs_escape rfl rfl
  · next hquote hslash hlf hcr htab =>
    split_ifs with h8 h12 h32
    · exact readsAs_letter (d := '\x08') h8 rfl rfl
    · exact readsAs_letter (d := '\x0c') h12 rfl rfl
    · change ReadsAs false ('\\' :: 'u' :: Text.lowerHex 4 c.toNat) c
      exact readsAs_code rfl rfl (by rw [Text.length_lowerHex]; rfl) lowerHex_line
        (Text.readNat?_lowerHex (by decide) (by omega))
    · refine readsAs_self ?_ hquote fun _ => hslash
      have hzero : c.toNat ≠ 0 := by omega
      rw [isBlankOrBreak, beq_false_of_ne hspace, beq_false_of_ne htab, beq_false_of_ne hzero]
      exact hbreak (by omega)

/-! ## Quoted scalars -/

theorem length_le_indentLines (n : Nat) : ∀ (broken : Bool) (ws : List Char),
    ws.length ≤ (indentLines n broken ws).length
  | _, [] => Nat.le_refl _
  | broken, c :: ws => by
      have ih := fun broken => length_le_indentLines n broken ws
      rw [indentLines]
      split
      · exact Nat.succ_le_succ (ih true)
      · rw [List.length_append]
        exact Nat.le_trans (Nat.succ_le_succ (ih false)) (Nat.le_add_left _ _)

theorem Legible.length_le {image : Char → List Char} {isGap : Char → Bool} : ∀ {cs : List Char},
    Legible single image isGap cs → cs.length ≤ (cs.flatMap image).length
  | [], _ => Nat.le_refl _
  | c :: cs, h => by
      have ih := (h.mono (List.suffix_cons c cs).isInfix).length_le
      have hc : image c ≠ [] := by
        cases hgap : isGap c with
        | true =>
          rw [h.gap c List.mem_cons_self hgap]
          exact List.cons_ne_nil _ _
        | false =>
          obtain ⟨d, ds, himage, -⟩ := (h.word c List.mem_cons_self hgap).solid
          exact himage ▸ List.cons_ne_nil _ _
      have := List.length_pos_iff.2 hc
      rw [List.flatMap_cons, List.length_append, List.length_cons]
      omega

/-- **A legible text between quotes.** -/
theorem quoted?_of_legible {image : Char → List Char} {isGap : Char → Bool} {cs : List Char}
    {n : Nat} (h : Legible single image isGap cs) (hn : n ≠ 0) (htail : tail.head? ≠ some '\'') :
    ∃ next, next.rest = tail ∧ next.column ≠ 0
      ∧ quoted? single ⟨quoteMark single :: (indented n (cs.flatMap image)
          ++ quoteMark single :: tail), i, l, k⟩ = some (cs, next) := by
  rw [quoted?, Cursor.advance_cons]
  refine quotedWords?_indented hn htail _ cs [] _ l _ h ?_ (Nat.succ_ne_zero _)
  have hlines := length_le_indentLines n false (cs.flatMap image)
  have := h.length_le
  simp only [List.length_cons, List.length_append, indented]
  omega

/-- **A word between quotes**, with the cursor behind it. -/
theorem quoted?_word {image : Char → List Char} {w : List Char}
    (hw : ∀ c ∈ w, ReadsAs single (image c) c) (htail : tail.head? ≠ some '\'') :
    quoted? single ⟨quoteMark single :: (w.flatMap image ++ quoteMark single :: tail), i, l, k⟩
      = some (w, ⟨tail, i + 1 + (w.flatMap image).length + 1, l,
          k + 1 + (w.flatMap image).length + 1⟩) := by
  rw [quoted?, Cursor.advance_cons, quotedWords?_word hw htail (Nat.succ_ne_zero _)]
  rfl

/-! ## The three writers -/

theorem flatMap_line {image : Char → List Char} {cs : List Char}
    (h : ∀ c ∈ cs, c ≠ ' ' → ReadsAs single (image c) c) (hspace : image ' ' = [' ']) :
    ∀ d ∈ cs.flatMap image, isBreak d = false := fun d hd => by
  obtain ⟨c, hc, hd⟩ := List.mem_flatMap.1 hd
  rcases eq_or_ne c ' ' with rfl | hne
  · rw [hspace, List.mem_singleton] at hd
    rw [hd]
    rfl
  · exact (h c hc hne).line d hd

/-- Where only spaces stand for themselves, every gap is one of spaces. -/
theorem legible_of_spaces {image : Char → List Char} {cs : List Char}
    (h : ∀ c ∈ cs, c ≠ ' ' → ReadsAs single (image c) c) (hspace : image ' ' = [' ']) :
    Legible single image (· == ' ') cs where
  word c hc hgap := h c hc (by simpa using hgap)
  gap c hc hgap := by rw [beq_iff_eq.1 hgap, hspace]
  kinds g hg hgap := .inl fun c hc => beq_iff_eq.1 (hgap c hc)

theorem legible_single {cs : List Char} (hallowed : singleAllowed cs = true) (hlf : '\n' ∉ cs) :
    Legible true singleImage (fun c => c == ' ' || isBreak c) cs := by
  simp only [singleAllowed, isSpecial, Bool.and_eq_true, Bool.not_eq_true', Bool.or_eq_false_iff,
    Bool.not_eq_false'] at hallowed
  obtain ⟨⟨hspace, hprint⟩, hbreak⟩ := hallowed
  have hprintable := List.all_eq_true.1 hprint
  have hapart : Apart cs := apart_iff.2 ⟨hspace, hbreak⟩
  refine ⟨fun c hc hgap => readsAs_singleImage ?_, fun c hc hgap => ?_, fun g hg hgap => ?_⟩
  · rw [isBlankOrBreak_of_isPrintable (hprintable c hc), hgap]
  · have hquote : c ≠ '\'' := fun he => absurd (he ▸ hgap) (by decide)
    rw [singleImage, if_neg hquote]
  · have hkinds : ∀ c ∈ g, c = ' ' ∨ isKept c = true := fun c hc => by
      have := hgap c hc
      simp only [Bool.or_eq_true, beq_iff_eq] at this
      exact this.imp_right (isKept_of_isPrintable (hprintable c (hg.subset hc)))
    have hpart : Apart g := List.IsChain.infix hapart hg
    refine (hpart.spaces_or_breaks hkinds).imp_right fun hkept c hc => ?_
    exact ⟨hkept c hc, fun he => hlf (he ▸ hg.subset hc)⟩

theorem getLast?_singleImages (cs : List Char) :
    (cs.flatMap singleImage).getLast? = cs.getLast? := by
  rcases List.eq_nil_or_concat cs with rfl | ⟨front, c, rfl⟩
  · rfl
  · rw [List.concat_eq_append, List.flatMap_append, List.getLast?_concat, List.flatMap_singleton]
    unfold singleImage
    split
    · next he => simp [he]
    · simp

theorem singleQuoted_eq (n : Nat) (cs : List Char) : singleQuoted n cs
    = quoteMark true :: (indented n (cs.flatMap singleImage) ++ [quoteMark true]) := by
  have himages : (cs.flatMap fun c => if c = '\'' then ['\'', '\''] else [c])
      = cs.flatMap singleImage := rfl
  rw [indented, getLast?_singleImages]
  simp [singleQuoted, himages, quoteMark]

/-- **Single-quoted texts read back.** -/
theorem quoted?_singleQuoted {cs : List Char} {n : Nat} (hallowed : singleAllowed cs = true)
    (hlf : '\n' ∉ cs) (hn : n ≠ 0) (htail : tail.head? ≠ some '\'') :
    ∃ next, next.rest = tail ∧ next.column ≠ 0
      ∧ quoted? true ⟨singleQuoted n cs ++ tail, i, l, k⟩ = some (cs, next) := by
  have h := quoted?_of_legible (i := i) (l := l) (k := k) (legible_single hallowed hlf) hn htail
  rw [singleQuoted_eq, List.cons_append, List.append_assoc]
  exact h

/-- A text in double quotes has no lines of its own. -/
theorem quoted?_double {image : Char → List Char} {cs : List Char}
    (h : ∀ c ∈ cs, c ≠ ' ' → ReadsAs false (image c) c) (hspace : image ' ' = [' '])
    (htail : tail.head? ≠ some '\'') : ∃ next, next.rest = tail ∧ next.column ≠ 0
      ∧ quoted? false ⟨'"' :: cs.flatMap image ++ ['"'] ++ tail, i, l, k⟩ = some (cs, next) := by
  have hread := quoted?_of_legible (i := i) (l := l) (k := k) (legible_of_spaces h hspace)
    Nat.one_ne_zero htail
  have hlines : indented 1 (cs.flatMap image) = cs.flatMap image := by
    have := indented_append 1 (flatMap_line h hspace) []
    simpa [indented, indentLines] using this
  rw [hlines] at hread
  rw [List.append_assoc, List.cons_append]
  exact hread

/-- **Double-quoted texts read back.** -/
theorem quoted?_doubleQuoted (cs : List Char) (htail : tail.head? ≠ some '\'') :
    ∃ next, next.rest = tail ∧ next.column ≠ 0
      ∧ quoted? false ⟨doubleQuoted cs ++ tail, i, l, k⟩ = some (cs, next) :=
  quoted?_double (fun _ _ => readsAs_doubleEscaped) rfl htail

/-- **JSON strings read back** as YAML, but for raw breaks. -/
theorem quoted?_quote {s : String} (hs : ∀ c ∈ s.toList, 32 ≤ c.toNat → isBreak c = false)
    (htail : tail.head? ≠ some '\'') : ∃ next, next.rest = tail ∧ next.column ≠ 0
      ∧ quoted? false ⟨(Json.quote s).toList ++ tail, i, l, k⟩ = some (s.toList, next) := by
  rw [Json.quote, String.toList_ofList]
  exact quoted?_double (fun c hc hne => readsAs_escaped hne (hs c hc)) rfl htail

end RegistryFleet.Yaml
