import Mathlib.Data.List.Chain
import Mathlib.Data.List.TakeWhile
import RegistryFleet.Yaml.Cursor
import RegistryFleet.Yaml.Scalar

/-!
# Proofs/Yaml/Gap — what divides words comes back as it is

A text that is written without escapes falls into words and gaps. A gap of spaces reads as those
spaces. A gap of breaks reads as those breaks, however far the line behind it is indented, if no
space stands beside a break in the text itself; the writer sees to that by quoting.

* `Solid` — text in front of which a gap ends.
* `Apart` — no space beside a break, so that each gap is of one kind.
-/

namespace RegistryFleet.Yaml

/-! ## Classes of characters -/

/-- A break that is not read as another one. -/
def isKept (c : Char) : Bool := c == '\n' || c.toNat == 0x2028 || c.toNat == 0x2029

theorem isBreak_of_isKept {c : Char} (h : isKept c = true) : isBreak c = true := by
  unfold isKept at h
  unfold isBreak
  simp only [Bool.or_eq_true] at h ⊢
  rcases h with (h | h) | h
  · exact .inl (.inl (.inl (.inl h)))
  · exact .inl (.inr h)
  · exact .inr h

/-- The breaks that need no escape are those that read as themselves. -/
theorem isKept_of_isPrintable {c : Char} (h : isPrintable c = true) (hbreak : isBreak c = true) :
    isKept c = true := by
  unfold isPrintable at h
  unfold isBreak at hbreak
  unfold isKept
  simp only [Bool.or_eq_true, beq_iff_eq, Bool.and_eq_true, decide_eq_true_eq, bne_iff_ne] at *
  rcases hbreak with (((rfl | rfl) | h85) | hline) | hparagraph
  · exact .inl (.inl rfl)
  · exact absurd h (by decide)
  · rw [h85] at h
    omega
  · exact .inl (.inr hline)
  · exact .inr hparagraph

theorem isBreak_of_solid {c : Char} (h : isBlankOrBreak c = false) : isBreak c = false := by
  unfold isBlankOrBreak at h
  simp only [Bool.or_eq_false_iff] at h
  exact h.2

theorem isBlankChar_of_solid {c : Char} (h : isBlankOrBreak c = false) : isBlankChar c = false := by
  unfold isBlankOrBreak at h
  unfold isBlankChar
  simp only [Bool.or_eq_false_iff] at h ⊢
  exact h.1.1

theorem isBlankChar_of_isBreak {c : Char} (h : isBreak c = true) : isBlankChar c = false := by
  have hspace : c ≠ ' ' := fun he => absurd (he ▸ h) (by decide)
  have htab : c ≠ '\t' := fun he => absurd (he ▸ h) (by decide)
  simp [isBlankChar, hspace, htab]

/-- **Text at which a gap ends**: it is over, or a word begins. -/
def Solid (cs : List Char) : Prop := ∀ c ∈ cs.head?, isBlankOrBreak c = false

theorem solid_cons {c : Char} {cs : List Char} : Solid (c :: cs) ↔ isBlankOrBreak c = false := by
  simp [Solid]

/-! ## Cursors -/

namespace Cursor

variable {w tail : List Char} {i l k : Nat}

/-- The cursor behind characters of the line. -/
theorem advance_append : (⟨w ++ tail, i, l, k⟩ : Cursor).advance w.length
    = ⟨tail, i + w.length, l, k + w.length⟩ := by
  rw [advance, List.drop_left]

theorem advance_zero (c : Cursor) : c.advance 0 = c := rfl

theorem advance_cons {c : Char} : (⟨c :: tail, i, l, k⟩ : Cursor).advance 1
    = ⟨tail, i + 1, l, k + 1⟩ := rfl

theorem break?_kept {b : Char} (h : isKept b = true) :
    (⟨b :: tail, i, l, k⟩ : Cursor).break? = some ([b], ⟨tail, i + 1, l + 1, 0⟩) := by
  have hcr : b ≠ '\r' := fun he => absurd (he ▸ h) (by decide)
  unfold break?
  split
  · next he => exact absurd (List.cons.inj he).1 hcr
  · next d rest _ he =>
    obtain ⟨rfl, rfl⟩ := List.cons.inj he
    rw [if_pos (isBreak_of_isKept h)]
    unfold isKept at h
    simp only [Bool.or_eq_true, beq_iff_eq] at h
    rcases h with (rfl | h) | h
    · rfl
    · simp [h]
    · simp [h]
  · next he => cases he

theorem break?_none {c : Cursor} (h : ∀ d ∈ c.rest.head?, isBreak d = false) :
    c.break? = none := by
  unfold break?
  split
  · next he => exact absurd (h '\r' (by rw [he]; rfl)) (by decide)
  · next d rest _ he => rw [if_neg (by rw [h d (by rw [he]; rfl)]; decide)]
  · rfl

theorem break?_solid {c : Cursor} (h : Solid c.rest) : c.break? = none :=
  break?_none fun d hd => isBreak_of_solid (h d hd)

/-! ## Gaps -/

variable {indent : Option Nat} {g : Gap}

theorem gapWithin_solid (h : Solid tail) (steps : Nat) :
    gapWithin indent steps g ⟨tail, i, l, k⟩ = some (g, ⟨tail, i, l, k⟩) := by
  cases steps with
  | zero => rfl
  | succ steps =>
    unfold gapWithin
    cases tail with
    | nil => rfl
    | cons d tail =>
      have hd := solid_cons.1 h
      simp only [isBlankChar_of_solid hd, Bool.false_eq_true, if_false,
        break?_solid (c := ⟨d :: tail, i, l, k⟩) h]

theorem gapWithin_spaces (steps : Nat) : ∀ (n : Nat) (g : Gap) (i k : Nat),
    gapWithin indent (steps + n) g ⟨List.replicate n ' ' ++ tail, i, l, k⟩
      = gapWithin indent steps
          (if g.breaks then g else { g with blanks := g.blanks ++ List.replicate n ' ' })
          ⟨tail, i + n, l, k + n⟩
  | 0, g, i, k => by simp
  | n + 1, g, i, k => by
      have hblank : isBlankChar ' ' = true := by decide
      have htab : (' ' == '\t') = false := by decide
      rw [← Nat.add_assoc, gapWithin, List.replicate_succ, List.cons_append]
      simp only [hblank, htab, Bool.and_false, Bool.false_and, Bool.false_eq_true, if_false,
        if_true]
      rw [advance_cons, gapWithin_spaces steps n, Nat.add_right_comm i 1 n,
        Nat.add_right_comm k 1 n]
      unfold Gap.addBlank
      by_cases hbreaks : g.breaks = true
      · simp only [hbreaks, if_true, Nat.add_assoc]
      · have hbreaks' : ({ g with blanks := g.blanks ++ [' '] } : Gap).breaks = false := by
          simpa [Gap.breaks] using hbreaks
        simp only [Bool.not_eq_true] at hbreaks
        simp only [hbreaks, hbreaks', Bool.false_eq_true, if_false, List.append_assoc,
          List.cons_append, List.nil_append, Nat.add_assoc]

theorem gapWithin_breaks (steps : Nat) : ∀ (bs kept others : List Char) (i l k : Nat),
    (∀ b ∈ bs, isKept b = true) →
    gapWithin indent (steps + bs.length) ⟨[], some kept, others⟩ ⟨bs ++ tail, i, l, k⟩
      = gapWithin indent steps ⟨[], some kept, others ++ bs⟩
          ⟨tail, i + bs.length, l + bs.length, if bs.isEmpty then k else 0⟩
  | [], kept, others, i, l, k, _ => by simp
  | b :: bs, kept, others, i, l, k, h => by
      have hb := h b List.mem_cons_self
      have ih := gapWithin_breaks steps bs kept (others ++ [b]) (i + 1) (l + 1) 0
        fun b hb => h b (List.mem_cons_of_mem _ hb)
      rw [List.length_cons, ← Nat.add_assoc, gapWithin, List.cons_append]
      simp only [isBlankChar_of_isBreak (isBreak_of_isKept hb), Bool.false_eq_true, if_false,
        break?_kept hb, Gap.addBreak]
      rw [ih, List.append_assoc, List.singleton_append]
      simp [Nat.add_assoc, Nat.add_comm 1 bs.length]

/-- **A gap of spaces.** -/
theorem gap_spaces (h : Solid tail) (n : Nat) :
    (⟨List.replicate n ' ' ++ tail, i, l, k⟩ : Cursor).gap indent Gap.none
      = some (⟨List.replicate n ' ', none, []⟩, ⟨tail, i + n, l, k + n⟩) := by
  have hsteps : (List.replicate n ' ' ++ tail).length = tail.length + n := by
    rw [List.length_append, List.length_replicate, Nat.add_comm]
  rw [gap, hsteps, gapWithin_spaces, gapWithin_solid h]
  rfl

/-- **A gap of breaks**, and of the spaces in front of the next line's text. -/
theorem gap_breaks {b : Char} {bs : List Char} (hb : isKept b = true)
    (hbs : ∀ d ∈ bs, isKept d = true) (h : Solid tail) (n : Nat) :
    (⟨b :: bs ++ (List.replicate n ' ' ++ tail), i, l, k⟩ : Cursor).gap indent Gap.none
      = some (⟨[], some [b], bs⟩, ⟨tail, i + 1 + bs.length + n, l + 1 + bs.length, n⟩) := by
  have hsteps : (b :: bs ++ (List.replicate n ' ' ++ tail)).length
      = tail.length + n + bs.length + 1 := by
    simp only [List.cons_append, List.length_cons, List.length_append, List.length_replicate]
    omega
  rw [gap, hsteps, gapWithin, List.cons_append]
  simp only [isBlankChar_of_isBreak (isBreak_of_isKept hb), Bool.false_eq_true, if_false,
    break?_kept hb]
  change gapWithin indent (tail.length + n + bs.length) ⟨[], some [b], []⟩ _ = _
  rw [gapWithin_breaks _ _ _ _ _ _ _ hbs, gapWithin_spaces, gapWithin_solid h]
  simp [Gap.breaks]

end Cursor

/-! ## Words and gaps -/

/-- **The first word of a text and the gap behind it**; without a gap the word is all of it. -/
theorem exists_word_gap (p : Char → Bool) (cs : List Char) : ∃ w g r, cs = w ++ (g ++ r)
    ∧ (∀ c ∈ w, p c = false) ∧ (∀ c ∈ g, p c = true) ∧ (∀ c ∈ r.head?, p c = false)
    ∧ (g = [] → r = []) := by
  refine ⟨cs.takeWhile (!p ·), (cs.dropWhile (!p ·)).takeWhile p,
    (cs.dropWhile (!p ·)).dropWhile p, ?_, fun c hc => ?_, fun c hc => ?_, fun c hc => ?_,
    fun hg => ?_⟩
  · rw [List.takeWhile_append_dropWhile, List.takeWhile_append_dropWhile]
  · simpa using List.mem_takeWhile_imp hc
  · exact List.mem_takeWhile_imp hc
  · have hhead := List.head?_dropWhile_not p (cs.dropWhile (!p ·))
    rw [Option.mem_def.1 hc] at hhead
    simpa using hhead
  · cases hrest : cs.dropWhile (!p ·) with
    | nil => rfl
    | cons c r =>
      have hhead := List.head?_dropWhile_not (!p ·) cs
      rw [hrest] at hhead hg
      have hc : p c = true := by simpa using hhead
      rw [List.takeWhile_cons, if_pos hc] at hg
      cases hg

/-! ## Spaces and breaks kept apart -/

theorem hasSpaceBreak_cons (c : Char) (cs : List Char) :
    hasSpaceBreak (c :: cs) = (c == ' ' && cs.head?.any isBreak || hasSpaceBreak cs) := by
  rw [hasSpaceBreak.eq_def]
  split
  · next he =>
    obtain ⟨rfl, rfl⟩ := List.cons.inj he
    rfl
  · next hnext he =>
    obtain ⟨rfl, rfl⟩ := List.cons.inj he
    by_cases hc : c = ' '
    · cases cs with
      | nil => simp
      | cons d cs => exact (hnext d cs hc rfl).elim
    · simp [hc]
  · next he => cases he

theorem hasBreakSpace_cons (c : Char) (cs : List Char) :
    hasBreakSpace (c :: cs) = (isBreak c && cs.head? == some ' ' || hasBreakSpace cs) := by
  rw [hasBreakSpace.eq_def]
  split
  · next he =>
    obtain ⟨rfl, rfl⟩ := List.cons.inj he
    simp
  · next hnext he =>
    obtain ⟨rfl, rfl⟩ := List.cons.inj he
    by_cases hspace : cs.head? = some ' '
    · obtain ⟨tail, rfl⟩ := List.head?_eq_some_iff.1 hspace
      exact (hnext tail rfl).elim
    · simp [hspace]
  · next he => cases he

/-- **No space stands beside a break.** -/
def Apart (cs : List Char) : Prop :=
  cs.IsChain fun c d => ¬ (c = ' ' ∧ isBreak d = true) ∧ ¬ (isBreak c = true ∧ d = ' ')

theorem apart_iff : ∀ {cs : List Char},
    Apart cs ↔ hasSpaceBreak cs = false ∧ hasBreakSpace cs = false
  | [] => by simp [Apart, hasSpaceBreak, hasBreakSpace]
  | [c] => by simp [Apart, hasSpaceBreak_cons, hasSpaceBreak, hasBreakSpace]
  | c :: d :: cs => by
      have ih : Apart (d :: cs) ↔ _ := apart_iff
      rw [Apart, List.isChain_cons_cons]
      change _ ∧ Apart (d :: cs) ↔ _
      rw [ih, hasSpaceBreak_cons c, hasBreakSpace_cons c]
      simp only [List.head?_cons, Option.any_some, Bool.or_eq_false_iff, Bool.and_eq_false_iff,
        beq_eq_false_iff_ne, ne_eq, Option.some.injEq, not_and_or, Bool.not_eq_true]
      constructor
      · rintro ⟨⟨hspace, hbreak⟩, hspaces, hbreaks⟩
        exact ⟨⟨hspace, hspaces⟩, hbreak, hbreaks⟩
      · rintro ⟨⟨hspace, hspaces⟩, hbreak, hbreaks⟩
        exact ⟨⟨hspace, hbreak⟩, hspaces, hbreaks⟩

/-- **A gap is of one kind.** -/
theorem Apart.spaces_or_breaks : ∀ {g : List Char}, Apart g →
    (∀ c ∈ g, c = ' ' ∨ isKept c = true) → (∀ c ∈ g, c = ' ') ∨ ∀ c ∈ g, isKept c = true
  | [], _, _ => .inl fun _ h => absurd h List.not_mem_nil
  | [c], _, h => by simpa using h c List.mem_cons_self
  | c :: d :: g, hapart, h => by
      obtain ⟨⟨hspace, hbreak⟩, htail⟩ := List.isChain_cons_cons.1 hapart
      have hd := h d (List.mem_cons_of_mem _ List.mem_cons_self)
      rcases spaces_or_breaks htail fun c hc => h c (List.mem_cons_of_mem _ hc) with hall | hall
      · refine (h c List.mem_cons_self).imp (fun hc => ?_) fun hc => ?_
        · exact List.forall_mem_cons.2 ⟨hc, hall⟩
        · exact absurd ⟨isBreak_of_isKept hc, hall d List.mem_cons_self⟩ hbreak
      · refine (h c List.mem_cons_self).imp (fun hc => ?_) fun hc => ?_
        · exact absurd ⟨hc, isBreak_of_isKept (hall d List.mem_cons_self)⟩ hspace
        · exact List.forall_mem_cons.2 ⟨hc, hall⟩

end RegistryFleet.Yaml
