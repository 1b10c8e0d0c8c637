import RegistryFleet.Proofs.Yaml.Quoted
import Mathlib.Data.List.DropRight

/-!
# Proofs/Yaml/Literal — a literal block comes back line by line

A text of several lines is written as a block whose lines are indented further than their key. A
reader takes the indentation off each line and keeps every break in between. What happens to the
breaks at the end is said by a hint, and so is the indentation where the text itself begins with a
space or a break; the writer's hints are those that its text needs.

* `Blocked` — a text cut into empty lines in front, lines, and breaks at the end.
* `block?_literalBlock` — the block of a text is read as that text.
-/

namespace RegistryFleet.Yaml

open Lexeme

variable {tail : List Char} {i l k : Nat}

/-! ## Hints -/

namespace Lexeme

/-- The mark of a chomping. -/
def Chomping.mark : Chomping → List Char
  | .strip => ['-']
  | .clip => []
  | .keep => ['+']

end Lexeme

/-- The chomping that keeps the end of a text as it is. -/
def chompingOf (cs : List Char) : Chomping :=
  match cs.reverse with
  | last :: before =>
    if !isBreak last then .strip else if before.head?.all isBreak then .keep else .clip
  | [] => .strip

/-- Does the text begin so that its indentation must be told? -/
def beginsLoose (cs : List Char) : Bool := cs.head?.any fun c => c == ' ' || isBreak c

/-- The indentation that is told for a text. -/
def givenFor (cs : List Char) : Option Nat := if beginsLoose cs then some 2 else none

theorem literalHints_eq (cs : List Char) : literalHints cs
    = (if beginsLoose cs then ['2'] else []) ++ (chompingOf cs).mark := by
  unfold literalHints chompingOf
  cases cs.reverse with
  | nil => rfl
  | cons last before =>
    simp only [beginsLoose]
    congr 1
    split
    · rfl
    · split <;> rfl

/-- **The hints are read** as what they were written for. -/
theorem blockHints?_literalHints (cs tail : List Char) (i l k : Nat) : ∃ i' k',
    blockHints? ⟨literalHints cs ++ '\n' :: tail, i, l, k⟩
      = some (chompingOf cs, givenFor cs, ⟨'\n' :: tail, i', l, k'⟩) := by
  rw [literalHints_eq, givenFor]
  cases beginsLoose cs <;> cases chompingOf cs
  · exact ⟨_, _, rfl⟩
  · cases tail <;> exact ⟨_, _, rfl⟩
  · exact ⟨_, _, rfl⟩
  · exact ⟨_, _, rfl⟩
  · exact ⟨_, _, rfl⟩
  · exact ⟨_, _, rfl⟩

/-! ## Indentation and empty lines -/

theorem takeWhile_spaces (n : Nat) (cs : List Char) :
    (List.replicate n ' ' ++ cs).takeWhile (· == ' ')
      = List.replicate n ' ' ++ cs.takeWhile (· == ' ') := by
  induction n with
  | zero => rfl
  | succ n ih => rw [List.replicate_succ, List.cons_append, List.takeWhile_cons, ih]; rfl

theorem advance_spaces (n : Nat) : (⟨List.replicate n ' ' ++ tail, i, l, k⟩ : Cursor).advance n
    = ⟨tail, i + n, l, k + n⟩ := by
  have h : (⟨List.replicate n ' ' ++ tail, i, l, k⟩ : Cursor).advance (List.replicate n ' ').length
    = _ := Cursor.advance_append
  rwa [List.length_replicate] at h

/-- Empty lines are passed. -/
theorem blockBreaks?_breaks {n : Nat} (steps : Nat) : ∀ (bs acc : List Char) (widest i l : Nat),
    (∀ b ∈ bs, isKept b = true) →
    blockBreaks? (some n) (steps + bs.length) acc widest ⟨bs ++ tail, i, l, 0⟩
      = blockBreaks? (some n) steps (acc ++ bs) widest ⟨tail, i + bs.length, l + bs.length, 0⟩
  | [], acc, widest, i, l, _ => by simp
  | b :: bs, acc, widest, i, l, h => by
      obtain ⟨hb, hbs⟩ := List.forall_mem_cons.1 h
      have hspace : (b == ' ') = false := beq_false_of_ne fun he => absurd (he ▸ hb) (by decide)
      have htab : b ≠ '\t' := fun he => absurd (he ▸ hb) (by decide)
      rw [List.length_cons, ← Nat.add_assoc, blockBreaks?, List.cons_append]
      simp only [List.takeWhile_cons, hspace, Bool.false_eq_true, if_false, List.length_nil,
        Nat.zero_min, Cursor.advance_zero]
      rw [if_neg (by simp [Cursor.sees, htab]), Cursor.break?_kept hb]
      simp only [Nat.max_zero]
      rw [blockBreaks?_breaks steps bs _ _ _ _ hbs, List.append_assoc, List.singleton_append]
      simp [Nat.add_assoc, Nat.add_comm 1 bs.length]

/-- The line that follows is indented as far as wanted; what stands behind its indentation is
text. -/
theorem blockBreaks?_line {n : Nat} (hline : ∀ c ∈ tail.head?, isBreak c = false) (steps : Nat)
    (acc : List Char) (widest : Nat) :
    blockBreaks? (some n) (steps + 1) acc widest ⟨List.replicate n ' ' ++ tail, i, l, 0⟩
      = some (acc, max widest n, ⟨tail, i + n, l, n⟩) := by
  have htaken : min ((List.replicate n ' ' ++ tail).takeWhile (· == ' ')).length (n - 0) = n := by
    rw [takeWhile_spaces, List.length_append, List.length_replicate]
    omega
  rw [blockBreaks?]
  simp only [htaken, advance_spaces, Nat.zero_add]
  rw [if_neg (by simp), Cursor.break?_none hline]

/-- A line whose text is no further in than wanted: it ends the block, or without a hint it tells
the indentation. -/
theorem blockBreaks?_solid {indent : Option Nat} {m : Nat} (hsolid : Solid tail)
    (hm : ∀ n ∈ indent, m ≤ n) (steps : Nat) (acc : List Char) (widest : Nat) :
    blockBreaks? indent (steps + 1) acc widest ⟨List.replicate m ' ' ++ tail, i, l, 0⟩
      = some (acc, max widest m, ⟨tail, i + m, l, m⟩) := by
  have hspaces : ((List.replicate m ' ' ++ tail).takeWhile (· == ' ')).length = m := by
    rw [takeWhile_spaces, List.length_append, List.length_replicate]
    cases tail with
    | nil => rfl
    | cons c tail =>
      have hc := solid_cons.1 hsolid
      rw [List.takeWhile_cons, if_neg]
      · rfl
      · rw [beq_iff_eq]
        rintro rfl
        cases hc
  have htab : (⟨tail, i + m, l, m⟩ : Cursor).sees 0 '\t' = false := by
    cases tail with
    | nil => rfl
    | cons c tail =>
      have hc := solid_cons.1 hsolid
      refine beq_false_of_ne fun he => ?_
      rw [List.getElem?_cons_zero, Option.some.injEq] at he
      rw [he] at hc
      cases hc
  have hbreak : (⟨tail, i + m, l, m⟩ : Cursor).break? = none := Cursor.break?_solid hsolid
  cases indent with
  | none =>
    rw [blockBreaks?]
    simp only [hspaces, advance_spaces, Nat.zero_add, htab, Bool.and_false, Bool.false_eq_true,
      if_false, hbreak]
  | some n =>
    have htaken : min m (n - 0) = m := Nat.min_eq_left (hm n rfl)
    rw [blockBreaks?]
    simp only [hspaces, htaken, advance_spaces, Nat.zero_add, htab, Bool.and_false,
      Bool.false_eq_true, if_false, hbreak]

/-! ## Lines -/

/-- **One line** with the breaks behind it. -/
theorem blockLines?_line {n widest : Nat} {w bs t : List Char} {d : Char} {next : Cursor}
    {b : BlockText} (hne : w ≠ []) (hw : ∀ c ∈ w, isBreak c = false) (hd : isKept d = true)
    (hbs : ∀ c ∈ bs, isKept c = true)
    (hnext : ∀ fuel, blockBreaks? (some n) (fuel + 1) bs 0
      ⟨t, i + w.length + 1 + bs.length, l + 1 + bs.length, 0⟩ = some (bs, widest, next))
    (steps : Nat) : ∃ blank, blockLines? true n (steps + 1) b ⟨w ++ (d :: bs ++ t), i, l, n⟩
      = blockLines? true n steps ⟨b.text ++ b.leading ++ b.trailing ++ w, [d], bs, blank⟩ next := by
  have hend : (⟨w ++ (d :: bs ++ t), i, l, n⟩ : Cursor).atEnd = false := by
    simp [Cursor.atEnd, hne]
  have hspan : (⟨w ++ (d :: bs ++ t), i, l, n⟩ : Cursor).span (fun c => !isBreak c)
      = (w, ⟨d :: bs ++ t, i + w.length, l, n + w.length⟩) := by
    have htake : (w ++ (d :: bs ++ t)).takeWhile (fun c => !isBreak c) = w := by
      rw [List.takeWhile_append_of_pos fun c hc => by simp [hw c hc], List.cons_append,
        List.takeWhile_cons, if_neg (by simp [isBreak_of_isKept hd]), List.append_nil]
    rw [Cursor.span, htake, Cursor.advance_append]
  have hbreaks : ∀ fuel, blockBreaks? (some n) (fuel + 1 + bs.length) [] 0
      ⟨bs ++ t, i + w.length + 1, l + 1, 0⟩ = some (bs, widest, next) := fun fuel => by
    rw [blockBreaks?_breaks _ _ _ _ _ _ hbs, List.nil_append]
    exact hnext fuel
  have hfuel : (bs ++ t).length + 1 = t.length + 1 + bs.length := by
    rw [List.length_append]
    omega
  refine ⟨(w ++ (d :: bs ++ t)).head?.any isBlankChar, ?_⟩
  rw [blockLines?]
  simp only [beq_self_eq_true, hend, Bool.not_false, Bool.and_self, if_true, hspan]
  rw [List.cons_append, Cursor.break?_kept hd]
  simp only [Option.getD_some, hfuel, hbreaks, Option.bind_eq_bind, Option.bind_some,
    BlockText.join, Bool.not_true, Bool.false_and, Bool.false_eq_true, if_false]

/-- **Lines with breaks between them**: a text that neither begins nor ends with a break. -/
structure IsLines (body : List Char) : Prop where
  ne_nil : body ≠ []
  first : ∀ c ∈ body.head?, isBreak c = false
  last : ∀ c ∈ body.getLast?, isBreak c = false
  kept : ∀ c ∈ body, isBreak c = true → isKept c = true

/-- Lines are one line, or a line, breaks and further lines. -/
theorem IsLines.split {body : List Char} (h : IsLines body) :
    ∃ w, w ≠ [] ∧ (∀ c ∈ w, isBreak c = false) ∧ (body = w ∨ ∃ d g rest,
      body = w ++ (d :: g ++ rest) ∧ (∀ c ∈ d :: g, isKept c = true) ∧ IsLines rest) := by
  obtain ⟨w, g, r, rfl, hw, hg, hr, hend⟩ := exists_word_gap isBreak body
  have hwne : w ≠ [] := by
    rintro rfl
    cases g with
    | nil => exact h.ne_nil (hend rfl)
    | cons d g => cases (h.first d rfl).symm.trans (hg d List.mem_cons_self)
  refine ⟨w, hwne, hw, ?_⟩
  cases g with
  | nil => exact .inl (by rw [hend rfl, List.append_nil, List.append_nil])
  | cons d g =>
    have hrne : r ≠ [] := by
      rintro rfl
      obtain ⟨front, e, hlast⟩ := (List.eq_nil_or_concat (d :: g)).resolve_left
        (List.cons_ne_nil d g)
      refine Bool.false_ne_true ((h.last e ?_).symm.trans (hg e ?_)) <;> simp [hlast]
    refine .inr ⟨d, g, r, rfl, fun c hc => h.kept c (List.mem_append_right _
      (List.mem_append_left _ hc)) (hg c hc), hrne, hr, fun c hc => h.last c ?_,
      fun c hc => h.kept c (List.mem_append_right _ (List.mem_append_right _ hc))⟩
    rwa [List.getLast?_append_of_ne_nil _ (by simp), List.getLast?_append_of_ne_nil _ hrne]

theorem indentLines_line (n : Nat) {w : List Char} (hw : ∀ c ∈ w, isBreak c = false) :
    indentLines n false w = w := by
  have h := indentLines_append n hw []
  rwa [List.append_nil, indentLines, List.append_nil] at h

/-- The line behind breaks is indented. -/
theorem indentLines_split (n : Nat) {w g rest : List Char} {d : Char}
    (hw : ∀ c ∈ w, isBreak c = false) (hg : ∀ c ∈ d :: g, isBreak c = true) (h : IsLines rest) :
    indentLines n false (w ++ (d :: g ++ rest))
      = w ++ (d :: g ++ (List.replicate n ' ' ++ indentLines n false rest)) := by
  obtain ⟨c, rest, rfl⟩ := List.exists_cons_of_ne_nil h.ne_nil
  rw [indentLines_append n hw, indentLines_breaks n _ _ hg]
  simp only [List.isEmpty_cons, Bool.not_false, Bool.or_true]
  rw [indentLines_true_cons n (h.first c rfl)]

theorem IsLines.head_indentLines {body : List Char} (h : IsLines body) (n : Nat)
    (rest : List Char) : (indentLines n false body ++ rest).head? = body.head? := by
  obtain ⟨c, body, rfl⟩ := List.exists_cons_of_ne_nil h.ne_nil
  simp [indentLines, h.first c rfl]

/-- **All lines**, and the breaks at the end. -/
theorem blockLines?_lines {n m : Nat} {d : Char} {bs : List Char}
    (hbs : ∀ c ∈ d :: bs, isKept c = true) (hsolid : Solid tail) (hm : m < n) :
    ∀ (steps : Nat) (body : List Char) (b : BlockText) (i l : Nat), IsLines body →
    body.length < steps → ∃ blank i' l', blockLines? true n steps b
        ⟨indentLines n false body ++ (d :: bs ++ (List.replicate m ' ' ++ tail)), i, l, n⟩
      = some (⟨b.text ++ b.leading ++ b.trailing ++ body, [d], bs, blank⟩, ⟨tail, i', l', m⟩)
  | 0, _, _, _, _, _, hsteps => absurd hsteps (Nat.not_lt_zero _)
  | steps + 1, body, b, i, l, h, hsteps => by
      obtain ⟨hd, hback⟩ := List.forall_mem_cons.1 hbs
      obtain ⟨w, hwne, hw, rfl | ⟨e, g, rest, rfl, heg, hrest⟩⟩ := h.split
      · -- the last line: the block ends behind its breaks
        obtain ⟨steps, rfl⟩ : ∃ s, steps = s + 1 :=
          Nat.exists_eq_add_one.2 (by have := List.length_pos_iff.2 hwne; omega)
        have hle : ∀ k ∈ some n, m ≤ k := fun k hk => Option.some.inj hk ▸ hm.le
        obtain ⟨blank, hline⟩ := blockLines?_line (b := b) hwne hw hd hback
          (fun fuel => blockBreaks?_solid (i := i + body.length + 1 + bs.length)
            (l := l + 1 + bs.length) hsolid hle fuel bs 0) (steps + 1)
        refine ⟨blank, i + body.length + 1 + bs.length + m, l + 1 + bs.length, ?_⟩
        rw [indentLines_line n hw, hline, blockLines?, if_neg (by simp; omega)]
      · obtain ⟨he, hg⟩ := List.forall_mem_cons.1 heg
        have hhead : ∀ x ∈ (indentLines n false rest
            ++ (d :: bs ++ (List.replicate m ' ' ++ tail))).head?, isBreak x = false := by
          rw [hrest.head_indentLines]
          exact hrest.first
        obtain ⟨blank, hline⟩ := blockLines?_line (b := b) hwne hw he hg
          (fun fuel => blockBreaks?_line (n := n) (i := i + w.length + 1 + g.length)
            (l := l + 1 + g.length) hhead fuel g 0) steps
        simp only [List.length_append, List.length_cons] at hsteps
        obtain ⟨blank', i', l', ih⟩ := blockLines?_lines hbs hsolid hm steps rest
          ⟨b.text ++ b.leading ++ b.trailing ++ w, [e], g, blank⟩
          (i + w.length + 1 + g.length + n) (l + 1 + g.length) hrest (by omega)
        refine ⟨blank', i', l', ?_⟩
        rw [indentLines_split n hw (fun c hc => isBreak_of_isKept (heg c hc)) hrest]
        simp only [List.append_assoc, List.cons_append] at hline ih ⊢
        rw [hline, ih]
        simp

/-! ## Blocks -/

/-- What a value is followed by, so that it ends its line. -/
def ended (ws : List Char) : List Char :=
  if ws.getLast?.any isBreak then ws else ws ++ ['\n']

/-- What a chomping leaves of the text of a block. -/
def Lexeme.Chomping.leave (chomping : Chomping) (b : BlockText) : List Char :=
  match chomping with
  | .strip => b.text
  | .clip => b.text ++ b.leading
  | .keep => b.text ++ b.leading ++ b.trailing

theorem ended_append (a : List Char) {b : List Char} (hb : b ≠ []) :
    ended (a ++ b) = a ++ ended b := by
  unfold ended
  rw [List.getLast?_append_of_ne_nil _ hb]
  split
  · rfl
  · rw [List.append_assoc]

theorem getLast?_indentLines (n : Nat) : ∀ (broken : Bool) (cs : List Char),
    (indentLines n broken cs).getLast? = cs.getLast?
  | _, [] => rfl
  | broken, c :: cs => by
      have ih := fun broken => getLast?_indentLines n broken cs
      rw [indentLines]
      split
      · rw [List.getLast?_cons, List.getLast?_cons, ih]
      · rw [List.getLast?_append_of_ne_nil _ (List.cons_ne_nil _ _), List.getLast?_cons,
          List.getLast?_cons, ih]

theorem indentLines_append_breaks (n : Nat) {run : List Char} (hrun : ∀ c ∈ run, isBreak c = true) :
    ∀ (broken : Bool) (cs : List Char),
      indentLines n broken (cs ++ run) = indentLines n broken cs ++ run
  | broken, [] => by
      have := indentLines_breaks n [] broken hrun
      simpa [indentLines] using this
  | broken, c :: cs => by
      rw [List.cons_append, indentLines, indentLines]
      split
      · rw [indentLines_append_breaks n hrun, List.cons_append]
      · rw [indentLines_append_breaks n hrun, List.append_assoc, List.cons_append]

theorem ended_breaks {cs : List Char} (hcs : ∀ c ∈ cs, isBreak c = true) (hne : cs ≠ []) :
    ended cs = cs := by
  rw [ended, List.getLast?_eq_some_getLast hne, if_pos]
  exact hcs _ (List.getLast_mem _)

theorem indentLines_ne_nil (n : Nat) (broken : Bool) {cs : List Char} (hne : cs ≠ []) :
    indentLines n broken cs ≠ [] := by
  rwa [Ne, ← List.getLast?_eq_none_iff, getLast?_indentLines, List.getLast?_eq_none_iff]

/-- The chomping for a text that ends with these breaks. -/
def chompingFor (run : List Char) : Chomping :=
  if run.length = 0 then .strip else if run.length = 1 then .clip else .keep

/-- A block whose hints have been read, from the break behind them on. -/
def blockBody? (outer : Int) (chomping : Chomping) (given : Option Nat) (c : Cursor) :
    Option (List Char × Cursor) :=
  let wanted := given.map fun n => if 0 ≤ outer then outer.toNat + n else n
  (blockBreaks? wanted (c.rest.length + 1) [] 0 c).bind fun (breaks, widest, c) =>
    (blockLines? true (wanted.getD (max (max widest (outer + 1).toNat) 1)) (c.rest.length + 1)
      ⟨[], [], breaks, false⟩ c).bind fun (b, c) => some (chomping.leave b, c)

theorem blockBody?_ofNat (n : Nat) (chomping : Chomping) (given : Option Nat) (c : Cursor) :
    blockBody? n chomping given c
      = (blockBreaks? (given.map (n + ·)) (c.rest.length + 1) [] 0 c).bind
          fun (breaks, widest, c) =>
            (blockLines? true ((given.map (n + ·)).getD (max (max widest (n + 1)) 1))
              (c.rest.length + 1) ⟨[], [], breaks, false⟩ c).bind
                fun (b, c) => some (chomping.leave b, c) := by
  have hwanted : (fun k => if 0 ≤ (n : Int) then (n : Int).toNat + k else k) = (n + ·) := by
    funext k
    simp
  simp only [blockBody?, hwanted, Int.toNat_natCast_add_one]

theorem block?_hints (cs : List Char) (outer : Int) (tail : List Char) (i l k : Nat) : ∃ i' l',
    block? true outer ⟨'|' :: (literalHints cs ++ '\n' :: tail), i, l, k⟩
      = blockBody? outer (chompingOf cs) (givenFor cs) ⟨tail, i', l', 0⟩ := by
  obtain ⟨i', k', hhints⟩ := blockHints?_literalHints cs tail (i + 1) l (k + 1)
  refine ⟨i' + 1, l + 1, ?_⟩
  have hspan : (⟨'\n' :: tail, i', l, k'⟩ : Cursor).span isBlankChar
      = ([], ⟨'\n' :: tail, i', l, k'⟩) := rfl
  have hsharp : (⟨'\n' :: tail, i', l, k'⟩ : Cursor).sees 0 '#' = false := rfl
  have hend : (⟨'\n' :: tail, i', l, k'⟩ : Cursor).atEnd = false := rfl
  have hbreak : (⟨'\n' :: tail, i', l, k'⟩ : Cursor).break?
      = some (['\n'], ⟨tail, i' + 1, l + 1, 0⟩) := Cursor.break?_kept rfl
  rw [block?, Cursor.advance_cons, hhints]
  simp only [Option.bind_eq_bind, Option.bind_some, hspan, hsharp, Bool.false_eq_true, if_false,
    hend, hbreak, Option.isNone_some, Bool.and_false, Cursor.skipBreak, blockBody?]
  rfl

/-- **A text of lines**: empty lines in front, text from its first to its last character that is no
break, and the breaks at the end. -/
structure Blocked (lead body run : List Char) : Prop where
  front : ∀ c ∈ lead, isKept c = true
  lines : IsLines body
  back : ∀ c ∈ run, isKept c = true

theorem exists_blocked {cs : List Char} (h : ∀ c ∈ cs, isBreak c = true → isKept c = true)
    (hline : ∃ c ∈ cs, isBreak c = false) :
    ∃ lead body run, cs = lead ++ (body ++ run) ∧ Blocked lead body run := by
  set rest := cs.dropWhile isBreak with hrest
  have hcs : cs = cs.takeWhile isBreak ++ (rest.rdropWhile isBreak ++ rest.rtakeWhile isBreak) := by
    rw [List.rdropWhile_append_rtakeWhile, hrest, List.takeWhile_append_dropWhile]
  have hsub : ∀ c ∈ rest, c ∈ cs := fun c hc => (List.dropWhile_sublist _).subset hc
  have hfirst : ∀ c ∈ rest.head?, isBreak c = false := fun c hc => by
    have := List.head?_dropWhile_not isBreak cs
    rw [← hrest, Option.mem_def.1 hc] at this
    simpa using this
  have hne : rest.rdropWhile isBreak ≠ [] := fun he => by
    rw [List.rdropWhile_eq_nil_iff] at he
    have hnil : rest = [] := by
      cases hr : rest with
      | nil => rfl
      | cons c r =>
        rw [hr] at he hfirst
        have := hfirst c rfl
        rw [he c List.mem_cons_self] at this
        cases this
    obtain ⟨c, hc, hbreak⟩ := hline
    have := List.dropWhile_eq_nil_iff.1 (hrest ▸ hnil) c hc
    rw [hbreak] at this
    cases this
  refine ⟨_, _, _, hcs, fun c hc => ?_, ⟨hne, fun c hc => ?_, fun c hc => ?_, fun c hc => ?_⟩,
    fun c hc => ?_⟩
  · exact h c ((List.takeWhile_sublist _).subset hc) (List.mem_takeWhile_imp hc)
  · refine hfirst c ?_
    obtain ⟨t, ht⟩ := List.rdropWhile_prefix isBreak rest
    rw [← ht, List.head?_append_of_ne_nil _ hne]
    exact hc
  · have := List.rdropWhile_last_not isBreak rest hne
    rw [List.getLast?_eq_some_getLast hne] at hc
    rw [← Option.some.inj hc]
    simpa using this
  · exact h c (hsub c ((List.rdropWhile_prefix _ _).subset hc))
  · exact h c (hsub c ((List.rtakeWhile_suffix _ _).subset hc)) (List.mem_rtakeWhile_imp hc)

namespace Blocked

variable {lead body run : List Char}

/-- A text that begins with a break tells its indentation. -/
theorem lead_eq_nil (h : Blocked lead body run)
    (hloose : beginsLoose (lead ++ (body ++ run)) = false) :
    lead = [] := by
  cases lead with
  | nil => rfl
  | cons c lead =>
    have hc := isBreak_of_isKept (h.front c List.mem_cons_self)
    simp [beginsLoose, hc] at hloose

theorem chompingOf_append (h : Blocked lead body run) :
    chompingOf (lead ++ (body ++ run)) = chompingFor run := by
  obtain ⟨front, c, hbody⟩ := (List.eq_nil_or_concat body).resolve_left h.lines.ne_nil
  have hc : isBreak c = false := h.lines.last c (by simp [hbody])
  unfold chompingOf
  rcases List.eq_nil_or_concat run with rfl | ⟨run', e, rfl⟩
  · simp [hbody, hc, chompingFor]
  · have he := isBreak_of_isKept (h.back e (by simp))
    rcases List.eq_nil_or_concat run' with rfl | ⟨run'', e', rfl⟩
    · simp [hbody, he, hc, chompingFor]
    · have he' := isBreak_of_isKept (h.back e' (by simp))
      simp [he, he', chompingFor]

/-- **The block of a text**: its empty lines, its text line by line, and at least one break. -/
theorem ended_indentLines (h : Blocked lead body run) (n : Nat) : ∃ d bs,
    ended (indentLines n true (lead ++ (body ++ run)))
      = lead ++ (List.replicate n ' ' ++ (indentLines n false body ++ (d :: bs)))
    ∧ (∀ c ∈ d :: bs, isKept c = true) ∧ (run = [] ∧ bs = [] ∨ run = d :: bs) := by
  have hlead : ∀ c ∈ lead, isBreak c = true := fun c hc => isBreak_of_isKept (h.front c hc)
  have hrun : ∀ c ∈ run, isBreak c = true := fun c hc => isBreak_of_isKept (h.back c hc)
  have hlines : indentLines n true (lead ++ (body ++ run))
      = lead ++ (List.replicate n ' ' ++ (indentLines n false body ++ run)) := by
    obtain ⟨c, body', rfl⟩ := List.exists_cons_of_ne_nil h.lines.ne_nil
    rw [indentLines_breaks n _ true hlead, Bool.true_or, List.cons_append,
      indentLines_true_cons n (h.lines.first c rfl), ← List.cons_append,
      indentLines_append_breaks n hrun]
  rw [hlines]
  cases run with
  | nil =>
    have hne := indentLines_ne_nil n false h.lines.ne_nil
    refine ⟨'\n', [], ?_, by simp [isKept], .inl ⟨rfl, rfl⟩⟩
    rw [List.append_nil, ended_append _ (by simp [hne]), ended_append _ hne, ended, if_neg]
    obtain ⟨front, c, hbody⟩ := (List.eq_nil_or_concat body).resolve_left h.lines.ne_nil
    rw [getLast?_indentLines]
    simp [hbody, h.lines.last c (by simp [hbody])]
  | cons d bs =>
    refine ⟨d, bs, ?_, h.back, .inr rfl⟩
    rw [ended_append _ (by simp), ended_append _ (by simp),
      ended_append _ (List.cons_ne_nil d bs), ended_breaks hrun (List.cons_ne_nil d bs)]

/-- **The indentation of a block** is found behind its empty lines: it is told where the text begins
with a space or a break, and otherwise the first line has it. -/
theorem blockBreaks?_eq (h : Blocked lead body run) {text : List Char} {n : Nat}
    (hprint : ∀ c ∈ body.head?, isPrintable c = true) (htext : text.head? = body.head?) :
    ∃ widest,
      ((givenFor (lead ++ (body ++ run))).map (n + ·)).getD (max (max widest (n + 1)) 1) = n + 2
      ∧ blockBreaks? ((givenFor (lead ++ (body ++ run))).map (n + ·))
          ((lead ++ (List.replicate (n + 2) ' ' ++ text)).length + 1) [] 0
          ⟨lead ++ (List.replicate (n + 2) ' ' ++ text), i, l, 0⟩
        = some (lead, widest, ⟨text, i + lead.length + (n + 2), l + lead.length, n + 2⟩) := by
  cases hloose : beginsLoose (lead ++ (body ++ run)) with
  | true =>
    have hgiven : givenFor (lead ++ (body ++ run)) = some 2 := if_pos hloose
    have hfuel : (lead ++ (List.replicate (n + 2) ' ' ++ text)).length + 1
        = (List.replicate (n + 2) ' ' ++ text).length + 1 + lead.length := by
      rw [List.length_append]
      omega
    refine ⟨max 0 (n + 2), by rw [hgiven]; rfl, ?_⟩
    rw [hgiven, Option.map_some, hfuel, blockBreaks?_breaks _ _ _ _ _ _ h.front, List.nil_append,
      blockBreaks?_line (by rw [htext]; exact h.lines.first)]
  | false =>
    have hgiven : givenFor (lead ++ (body ++ run)) = none := if_neg (by simp [hloose])
    have hlead := h.lead_eq_nil hloose
    subst hlead
    have hsolid : Solid text := by
      obtain ⟨c, body', hbody⟩ := List.exists_cons_of_ne_nil h.lines.ne_nil
      have hc : c ∈ body.head? := by rw [hbody]; rfl
      have hspace : c ≠ ' ' := fun he => by simp [beginsLoose, hbody, he] at hloose
      obtain ⟨r, rfl⟩ := List.head?_eq_some_iff.1 (htext.trans hc)
      rw [solid_cons, isBlankOrBreak_of_isPrintable (hprint c hc), h.lines.first c hc,
        beq_false_of_ne hspace]
      rfl
    refine ⟨max 0 (n + 2), ?_, ?_⟩
    · rw [hgiven, Option.map_none, Option.getD_none]
      omega
    · rw [hgiven, Option.map_none, List.nil_append, blockBreaks?_solid hsolid (by simp)]
      simp

/-- **A block of lines is read**, with or without a hint of its indentation. -/
theorem blockBody?_eq (h : Blocked lead body run) {d : Char} {bs : List Char}
    (hprint : ∀ c ∈ body.head?, isPrintable c = true) (hkept : ∀ c ∈ d :: bs, isKept c = true)
    (hsolid : Solid tail) {n m : Nat} (hm : m ≤ n) (chomping : Chomping) :
    ∃ blank i' l', blockBody? n chomping (givenFor (lead ++ (body ++ run)))
        ⟨lead ++ (List.replicate (n + 2) ' ' ++ (indentLines (n + 2) false body
          ++ (d :: bs ++ (List.replicate m ' ' ++ tail)))), i, l, 0⟩
      = some (chomping.leave ⟨lead ++ body, [d], bs, blank⟩, ⟨tail, i', l', m⟩) := by
  set text := indentLines (n + 2) false body ++ (d :: bs ++ (List.replicate m ' ' ++ tail))
    with htext
  obtain ⟨blank, i', l', hlines⟩ := blockLines?_lines hkept hsolid (show m < n + 2 by omega)
    (text.length + 1) body ⟨[], [], lead, false⟩ (i + lead.length + (n + 2)) (l + lead.length)
    h.lines (by
      have := length_le_indentLines (n + 2) false body
      rw [htext, List.length_append]
      omega)
  rw [← htext] at hlines
  obtain ⟨widest, hindent, hbreaks⟩ := h.blockBreaks?_eq (i := i) (l := l) (n := n) hprint
    (show text.head? = body.head? from h.lines.head_indentLines _ _)
  refine ⟨blank, i', l', ?_⟩
  rw [blockBody?_ofNat]
  simp only [hbreaks, Option.bind_some, hindent, hlines, List.nil_append]

end Blocked

/-- **The chomping of a text restores its end.** -/
theorem leave_chompingFor {text run bs : List Char} {d : Char} {blank : Bool}
    (h : run = [] ∧ bs = [] ∨ run = d :: bs) :
    (chompingFor run).leave ⟨text, [d], bs, blank⟩ = text ++ run := by
  rcases h with ⟨rfl, -⟩ | rfl
  · simp [chompingFor, Chomping.leave]
  · cases bs with
    | nil => simp [chompingFor, Chomping.leave]
    | cons e bs => simp [chompingFor, Chomping.leave]

/-! ## Texts of nothing but breaks -/

theorem chompingOf_breaks {cs : List Char} (hcs : ∀ c ∈ cs, isBreak c = true) (hne : cs ≠ []) :
    chompingOf cs = .keep := by
  obtain ⟨front, c, rfl⟩ := (List.eq_nil_or_concat cs).resolve_left hne
  have hc := hcs c (by simp)
  unfold chompingOf
  rcases List.eq_nil_or_concat front with rfl | ⟨front, d, rfl⟩
  · simp [hc]
  · simp [hc, hcs d (by simp)]

theorem givenFor_breaks {cs : List Char} (hcs : ∀ c ∈ cs, isBreak c = true) (hne : cs ≠ []) :
    givenFor cs = some 2 := by
  obtain ⟨c, cs, rfl⟩ := List.exists_cons_of_ne_nil hne
  simp [givenFor, beginsLoose, hcs c List.mem_cons_self]

/-- A text of nothing but breaks is kept whole. -/
theorem blockBody?_breaks {cs : List Char} (hcs : ∀ c ∈ cs, isKept c = true) (hsolid : Solid tail)
    {n m : Nat} (hm : m ≤ n) : blockBody? n .keep (some 2)
        ⟨cs ++ (List.replicate m ' ' ++ tail), i, l, 0⟩
      = some (cs, ⟨tail, i + cs.length + m, l + cs.length, m⟩) := by
  have hfuel : (cs ++ (List.replicate m ' ' ++ tail)).length + 1
      = (List.replicate m ' ' ++ tail).length + 1 + cs.length := by
    rw [List.length_append]
    omega
  have hle : ∀ k ∈ some (n + 2), m ≤ k := fun k hk => Option.some.inj hk ▸ by omega
  rw [blockBody?_ofNat]
  simp only [Option.map_some, hfuel]
  rw [blockBreaks?_breaks _ _ _ _ _ _ hcs, List.nil_append, blockBreaks?_solid hsolid hle,
    Option.bind_some]
  simp only [Option.getD_some]
  rw [blockLines?, if_neg (by simp; omega)]
  rfl

/-! ## The whole block -/

theorem ended_literalBlock (n : Nat) {cs : List Char} (hne : cs ≠ []) :
    ended (literalBlock n cs)
      = '|' :: (literalHints cs ++ '\n' :: ended (indentLines n true cs)) := by
  have hsplit : literalBlock n cs = ('|' :: literalHints cs ++ ['\n'])
      ++ indentLines n true cs := by
    simp [literalBlock]
  rw [hsplit, ended_append _ (indentLines_ne_nil n true hne)]
  simp

/-- **A literal block is read** as the text that it was written for. -/
theorem block?_literalBlock {cs : List Char} (hprint : ∀ c ∈ cs, isPrintable c = true)
    (hne : cs ≠ []) (hsolid : Solid tail) {n m : Nat} (hm : m ≤ n) : ∃ i' l',
    block? true n ⟨ended (literalBlock (n + 2) cs) ++ (List.replicate m ' ' ++ tail), i, l, k⟩
      = some (cs, ⟨tail, i', l', m⟩) := by
  have hkept : ∀ c ∈ cs, isBreak c = true → isKept c = true := fun c hc =>
    isKept_of_isPrintable (hprint c hc)
  rw [ended_literalBlock (n + 2) hne]
  simp only [List.cons_append, List.append_assoc]
  obtain ⟨i₁, l₁, hhints⟩ := block?_hints cs n
    (ended (indentLines (n + 2) true cs) ++ (List.replicate m ' ' ++ tail)) i l k
  rw [hhints]
  by_cases hline : ∃ c ∈ cs, isBreak c = false
  · obtain ⟨lead, body, run, rfl, h⟩ := exists_blocked hkept hline
    obtain ⟨d, bs, hended, hbs, hrun⟩ := h.ended_indentLines (n + 2)
    have hfirst : ∀ c ∈ body.head?, isPrintable c = true := fun c hc => hprint c
      (List.mem_append_right _ (List.mem_append_left _ (List.mem_of_mem_head? hc)))
    obtain ⟨blank, i', l', hread⟩ := h.blockBody?_eq (i := i₁) (l := l₁) hfirst hbs hsolid hm
      (chompingFor run)
    refine ⟨i', l', ?_⟩
    rw [hended, h.chompingOf_append]
    simp only [List.append_assoc] at hread ⊢
    rw [hread, leave_chompingFor hrun, List.append_assoc]
  · have hbreaks : ∀ c ∈ cs, isBreak c = true := fun c hc => by
      by_contra hbreak
      exact hline ⟨c, hc, by simpa using hbreak⟩
    have hlines : indentLines (n + 2) true cs = cs := by
      have := indentLines_breaks (n + 2) [] true hbreaks
      rwa [List.append_nil, Bool.true_or, indentLines, List.append_nil] at this
    refine ⟨i₁ + cs.length + m, l₁ + cs.length, ?_⟩
    rw [hlines, ended_breaks hbreaks hne, givenFor_breaks hbreaks hne,
      chompingOf_breaks hbreaks hne]
    exact blockBody?_breaks (fun c hc => hkept c hc (hbreaks c hc)) hsolid hm

end RegistryFleet.Yaml
