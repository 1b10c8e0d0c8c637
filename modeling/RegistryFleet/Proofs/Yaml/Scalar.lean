import RegistryFleet.Proofs.Yaml.Plain

/-!
# Proofs/Yaml/Scalar — what the style of a text says of it, and of what is written

* `plainText_of_style`, `single_of_style`, `literal_of_style` — texts of the styles without escapes.
* `printable_scalar` — whatever the text, only printable characters are written.
-/

namespace RegistryFleet.Yaml

/-! ## The styles of texts -/

section Styles

variable {key : Bool} {w : String}

theorem plainText_of_style (h : styleOf key w = .plain) : PlainText w.toList := by
  simp only [styleOf] at h
  split at h
  · cases h
  · split at h
    · split at h <;> cases h
    · split at h
      · next hplain =>
        obtain ⟨hunambiguous, hallowed⟩ := Bool.and_eq_true_iff.1 hplain
        refine plainText_of_allowed (fun hnil => ?_) hallowed
        rw [String.toList_eq_nil_iff.1 hnil] at hunambiguous
        exact absurd hunambiguous (by decide)
      · split at h <;> cases h

theorem single_of_style (h : styleOf key w = .single) :
    singleAllowed w.toList = true ∧ '\n' ∉ w.toList := by
  simp only [styleOf] at h
  split at h
  · cases h
  · split at h
    · split at h <;> cases h
    · next hlf =>
      split at h
      · cases h
      · split at h
        · next hsingle => exact ⟨hsingle, by simpa using hlf⟩
        · cases h

theorem literal_of_style (h : styleOf key w = .literal) :
    w.toList ≠ [] ∧ ∀ c ∈ w.toList, isPrintable c = true := by
  simp only [styleOf] at h
  split at h
  · cases h
  · split at h
    · next hlf =>
      split at h
      · next hliteral =>
        simp only [literalAllowed, isSpecial, Bool.and_eq_true, Bool.not_eq_true',
          Bool.or_eq_false_iff, Bool.not_eq_false'] at hliteral
        exact ⟨fun hnil => by simp [hnil] at hlf, List.all_eq_true.1 hliteral.1.2⟩
      · cases h
    · split at h
      · cases h
      · split at h <;> cases h

end Styles

/-! ## The characters that are written -/

theorem isAllowed_of_isPrintable {c : Char} (h : isPrintable c = true) : isAllowed c = true := by
  unfold isPrintable at h
  unfold isAllowed
  simp only [Bool.or_eq_true, beq_iff_eq, Bool.and_eq_true, decide_eq_true_eq, bne_iff_ne] at h ⊢
  omega

private theorem printable_ite {p : Prop} [Decidable p] {a b : List Char}
    (ha : p → ∀ d ∈ a, isPrintable d = true) (hb : ¬ p → ∀ d ∈ b, isPrintable d = true) :
    ∀ d ∈ if p then a else b, isPrintable d = true := by
  split
  · next h => exact ha h
  · next h => exact hb h

private theorem printable_upperHex {width n : Nat} {front : List Char}
    (hfront : ∀ d ∈ front, isPrintable d = true) :
    ∀ d ∈ front ++ Text.upperHex width n, isPrintable d = true := by
  intro d hd
  rcases List.mem_append.1 hd with hd | hd
  · exact hfront d hd
  · obtain ⟨v, hv, rfl⟩ := Text.exists_of_mem_upperHex hd
    exact (by decide : ∀ v < 16, isPrintable (Text.upperDigit v) = true) v hv

theorem printable_doubleEscaped (c : Char) : ∀ d ∈ doubleEscaped c, isPrintable d = true := by
  unfold doubleEscaped
  iterate 14 refine printable_ite (fun _ => List.all_eq_true.1 rfl) fun _ => ?_
  refine printable_ite (fun h => by simpa using h) fun _ => ?_
  refine printable_ite (fun _ => ?_) fun _ => printable_ite (fun _ => ?_) fun _ => ?_
  all_goals exact printable_upperHex (List.all_eq_true.1 rfl)

theorem mem_indentLines {n : Nat} {c : Char} : ∀ {broken : Bool} {cs : List Char},
    c ∈ indentLines n broken cs → c = ' ' ∨ c ∈ cs
  | _, [], h => absurd h List.not_mem_nil
  | broken, d :: cs, h => by
      rw [indentLines] at h
      split at h
      · rcases List.mem_cons.1 h with rfl | h
        · exact .inr List.mem_cons_self
        · exact (mem_indentLines h).imp_right (List.mem_cons_of_mem d)
      · rcases List.mem_append.1 h with h | h
        · split at h
          · exact .inl (List.eq_of_mem_replicate h)
          · cases h
        · rcases List.mem_cons.1 h with rfl | h
          · exact .inr List.mem_cons_self
          · exact (mem_indentLines h).imp_right (List.mem_cons_of_mem d)

theorem printable_literalHints (cs : List Char) : ∀ d ∈ literalHints cs, isPrintable d = true := by
  have hmarks : ∀ d ∈ literalHints cs, d ∈ ['2', '-', '+'] := by
    intro d hd
    unfold literalHints at hd
    rcases List.mem_append.1 hd with hd | hd
    · split at hd
      · exact List.mem_of_mem_take (i := 1) hd
      · cases hd
    · split at hd
      · split at hd
        · simp_all
        · split at hd
          · simp_all
          · cases hd
      · simp_all
  have hall : ['2', '-', '+'].all isPrintable = true := by decide
  exact fun d hd => List.all_eq_true.1 hall d (hmarks d hd)

theorem printable_indentLines {n : Nat} {broken : Bool} {cs : List Char}
    (h : ∀ c ∈ cs, isPrintable c = true) : ∀ d ∈ indentLines n broken cs, isPrintable d = true :=
  fun d hd => (mem_indentLines hd).elim (fun he => he ▸ rfl) (h d)

theorem printable_of_single {cs : List Char} (h : singleAllowed cs = true) :
    ∀ c ∈ cs, isPrintable c = true := by
  simp only [singleAllowed, isSpecial, Bool.and_eq_true, Bool.not_eq_true',
    Bool.or_eq_false_iff, Bool.not_eq_false'] at h
  exact List.all_eq_true.1 h.1.2

theorem printable_singleQuoted {n : Nat} {cs : List Char} (h : ∀ c ∈ cs, isPrintable c = true) :
    ∀ d ∈ singleQuoted n cs, isPrintable d = true := by
  have hdoubled : ∀ d ∈ cs.flatMap fun c => if c = '\'' then ['\'', '\''] else [c],
      isPrintable d = true := fun d hd => by
    obtain ⟨c, hc, hd⟩ := List.mem_flatMap.1 hd
    exact printable_ite (fun _ => List.all_eq_true.1 rfl) (fun _ => by simpa using h c hc) d hd
  have hclosing : ∀ d ∈ if cs.getLast?.any isBreak then List.replicate n ' ' else [],
      isPrintable d = true :=
    printable_ite (fun _ d hd => List.eq_of_mem_replicate hd ▸ rfl) (fun _ => by simp)
  intro d hd
  simp only [singleQuoted, List.mem_append, List.mem_cons, List.not_mem_nil, or_false] at hd
  rcases hd with ((rfl | hd) | hd) | rfl
  · rfl
  · exact printable_indentLines hdoubled d hd
  · exact hclosing d hd
  · rfl

theorem printable_doubleQuoted (cs : List Char) : ∀ d ∈ doubleQuoted cs, isPrintable d = true := by
  intro d hd
  simp only [doubleQuoted, List.mem_append, List.mem_cons, List.mem_flatMap, List.not_mem_nil,
    or_false] at hd
  rcases hd with (rfl | ⟨c, -, hd⟩) | rfl
  · rfl
  · exact printable_doubleEscaped c d hd
  · rfl

theorem printable_literalBlock {n : Nat} {cs : List Char} (h : ∀ c ∈ cs, isPrintable c = true) :
    ∀ d ∈ literalBlock n cs, isPrintable d = true := by
  intro d hd
  simp only [literalBlock, List.mem_append, List.mem_cons] at hd
  rcases hd with (rfl | hd) | rfl | hd
  · rfl
  · exact printable_literalHints cs d hd
  · rfl
  · exact printable_indentLines h d hd

/-- **Only printable characters are written**, whatever the text. -/
theorem printable_scalar (n : Nat) (key : Bool) (w : String) :
    ∀ d ∈ (scalar n key w).toList, isPrintable d = true := by
  rw [scalar, String.toList_ofList]
  cases hstyle : styleOf key w with
  | plain => exact (plainText_of_style hstyle).printable
  | single => exact printable_singleQuoted (printable_of_single (single_of_style hstyle).1)
  | double => exact printable_doubleQuoted _
  | literal => exact printable_literalBlock (literal_of_style hstyle).2

end RegistryFleet.Yaml
