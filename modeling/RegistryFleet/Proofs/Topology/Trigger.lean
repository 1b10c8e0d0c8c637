import RegistryFleet.Topology.Plan
import Mathlib.Data.List.TakeWhile

/-!
# Proofs/Topology/Trigger — triggers by their first word

A trigger is cut in three ways: at every space to find its keyword, at the first space to find its
schedule, and at blanks of all kinds to trim the schedule. The ways agree because a keyword has no
space: a text whose first word is `cron` is `cron` itself, or has a space behind it and then what is
trimmed for the schedule.

* `Text.HasFirstWord` — the first word of a text, and `Trigger.keyword_eq_iff` that it decides.
* `Text.Trimmed` — what trimming leaves of a text, and `Trigger.schedule_eq_some_iff`.
* `Trigger.resolve_of_declared`, `Trigger.resolve_of_not_declared` — the effective trigger.
-/

namespace RegistryFleet

namespace Text

variable {p : Char → Bool} {d : Char} {cs word : List Char}

/-! ## The first word -/

/-- **The text begins with the word** and ends there, or goes on with a space. -/
def HasFirstWord (text word : String) : Prop := text = word ∨ ∃ rest, text = word ++ " " ++ rest

theorem before_of_not_mem (h : d ∉ cs) : before d cs = cs :=
  List.takeWhile_eq_self_iff.2 fun _ hc => bne_iff_ne.2 fun he => h (he ▸ hc)

theorem before_append (h : d ∉ cs) (back : List Char) : before d (cs ++ d :: back) = cs := by
  have hall : ∀ c ∈ cs, (c != d) = true := fun c hc => bne_iff_ne.2 fun he => h (he ▸ hc)
  rw [before, List.takeWhile_append_of_pos hall, List.takeWhile_cons_of_neg (by simp),
    List.append_nil]

/-- What stands in front of a mark is a word just if the text is it, or goes on with the mark. -/
theorem before_eq_iff (hword : d ∉ word) :
    before d cs = word ↔ cs = word ∨ ∃ rest, cs = word ++ d :: rest := by
  constructor
  · intro h
    cases hcut : cutAt? d cs with
    | none => exact .inl ((before_of_not_mem (cutAt?_eq_none_iff.1 hcut)).symm.trans h)
    | some parts =>
      obtain ⟨hcs, hfront⟩ := eq_append_of_cutAt? hcut
      rw [hcs, before_append hfront] at h
      exact .inr ⟨parts.2, by rw [hcs, h]⟩
  · rintro (rfl | ⟨rest, rfl⟩)
    · exact before_of_not_mem hword
    · exact before_append hword rest

/-- The same for texts, with the mark as a text. -/
theorem before_text_eq_iff {text word mark : String} (hmark : mark.toList = [d])
    (hword : d ∉ word.toList) : String.ofList (before d text.toList) = word
      ↔ text = word ∨ ∃ rest, text = word ++ mark ++ rest := by
  have hrest : ∀ rest : List Char, text.toList = word.toList ++ d :: rest
      ↔ text = word ++ mark ++ String.ofList rest := fun rest => by
    simp [← String.toList_inj, hmark]
  have hlist : String.ofList (before d text.toList) = word
      ↔ before d text.toList = word.toList := by
    rw [← String.toList_inj, String.toList_ofList]
  rw [hlist, before_eq_iff hword, String.toList_inj]
  refine or_congr_right ⟨fun ⟨rest, h⟩ => ⟨_, (hrest rest).1 h⟩, fun ⟨rest, h⟩ => ⟨rest.toList, ?_⟩⟩
  exact (hrest _).2 (by rw [String.ofList_toList]; exact h)

/-- The word in front of the first space is the first word. -/
theorem before_space_eq_iff {text word : String} (hword : ' ' ∉ word.toList) :
    String.ofList (before ' ' text.toList) = word ↔ HasFirstWord text word :=
  before_text_eq_iff rfl hword

/-! ## Trimming -/

/-- **What trimming leaves of a text** — only blanks are dropped, and no end is a blank. -/
structure Trimmed (text core : String) : Prop where
  cut : ∃ front back, text = front ++ core ++ back ∧ allBlank front = true ∧ allBlank back = true
  first : ∀ c ∈ core.toList.head?, isBlank c = false
  last : ∀ c ∈ core.toList.getLast?, isBlank c = false

theorem dropEndWhile_append_dropped (p : Char → Bool) (cs : List Char) :
    dropEndWhile p cs ++ (cs.reverse.takeWhile p).reverse = cs := by
  rw [dropEndWhile, ← List.reverse_append, List.takeWhile_append_dropWhile, List.reverse_reverse]

/-- Where characters are dropped in front, the first that is left is of another kind. -/
theorem of_mem_head?_dropWhile {c : Char} (h : c ∈ (cs.dropWhile p).head?) : p c = false := by
  have hhead := List.head?_dropWhile_not p cs
  rw [Option.mem_def.1 h] at hhead
  exact hhead

theorem of_mem_getLast?_dropEndWhile {c : Char} (h : c ∈ (dropEndWhile p cs).getLast?) :
    p c = false := by
  rw [dropEndWhile, List.getLast?_reverse] at h
  exact of_mem_head?_dropWhile h

/-- What stands in front of the end that is dropped begins as before. -/
theorem of_mem_head?_dropEndWhile {c : Char} (h : c ∈ (dropEndWhile p cs).head?) :
    c ∈ cs.head? := by
  have happend := congrArg List.head? (dropEndWhile_append_dropped p cs)
  rw [List.head?_append, Option.mem_def.1 h] at happend
  exact happend.symm

theorem trimmed_trim (s : String) : Trimmed s (trim s) where
  cut := by
    refine ⟨String.ofList (s.toList.takeWhile isBlank),
      String.ofList (((s.toList.dropWhile isBlank).reverse.takeWhile isBlank).reverse), ?_, ?_, ?_⟩
    · rw [← String.toList_inj]
      simp only [String.toList_append, String.toList_ofList, trim, trimList, List.append_assoc,
        dropEndWhile_append_dropped, List.takeWhile_append_dropWhile]
    · rw [allBlank, String.toList_ofList]
      exact List.all_takeWhile
    · rw [allBlank, String.toList_ofList, List.all_reverse]
      exact List.all_takeWhile
  first c hc := by
    rw [trim, String.toList_ofList] at hc
    exact of_mem_head?_dropWhile (of_mem_head?_dropEndWhile hc)
  last c hc := by
    rw [trim, String.toList_ofList] at hc
    exact of_mem_getLast?_dropEndWhile hc

/-- Trimming leaves nothing just of a text that is dropped as a whole. -/
theorem dropEndWhile_dropWhile_eq_nil_iff :
    dropEndWhile p (cs.dropWhile p) = [] ↔ cs.all p = true := by
  constructor
  · intro h
    have hrest : (cs.dropWhile p).all p = true := by
      rw [← dropEndWhile_append_dropped p (cs.dropWhile p), h, List.nil_append, List.all_reverse]
      exact List.all_takeWhile
    rw [← List.takeWhile_append_dropWhile (p := p) (l := cs), List.all_append, hrest,
      List.all_takeWhile]
    rfl
  · intro h
    rw [List.dropWhile_eq_nil_iff.2 fun c hc => List.all_eq_true.1 h c hc]
    exact dropEndWhile_nil p

/-- Nothing is left just of blanks. -/
theorem trimList_eq_nil_iff : trimList cs = [] ↔ cs.all isBlank = true :=
  dropEndWhile_dropWhile_eq_nil_iff

end Text

open Text (HasFirstWord allBlank)

/-! ## Keywords -/

/-- The word of a keyword that has one. -/
def Keyword.word? : Keyword → Option String
  | cron => some "cron"
  | manual => some "manual"
  | eventBased => some "event_based"
  | other => none

namespace Trigger

variable {t : Trigger} {settings : TopologySettings} {direction : Direction}
  {declared : Option String}

/-- **The first word decides the keyword.** -/
theorem keyword_eq_iff {k : Keyword} {word : String} (hk : k.word? = some word) :
    t.keyword = k ↔ HasFirstWord t.text word := by
  have hspace : ' ' ∉ word.toList := by
    cases k <;> cases hk <;> decide
  rw [← Text.before_space_eq_iff hspace]
  unfold keyword
  cases k <;> cases hk <;> split <;> simp_all

/-- A keyword is not known if no word of three is the first. -/
theorem keyword_eq_other_iff : t.keyword = .other
    ↔ ∀ word ∈ ["cron", "manual", "event_based"], ¬ HasFirstWord t.text word := by
  simp only [List.forall_mem_cons, List.not_mem_nil, false_imp_iff, implies_true, and_true]
  rw [← keyword_eq_iff (k := .cron) rfl, ← keyword_eq_iff (k := .manual) rfl,
    ← keyword_eq_iff (k := .eventBased) rfl]
  cases t.keyword <;> simp

/-- What stands behind `cron` and a space is the schedule, unless it is blank. -/
theorem schedule_of_cron {text : String} (h : t.text = "cron " ++ text) :
    t.schedule = if allBlank text then none else some (Text.trim text) := by
  have hspace : ' ' ∉ "cron".toList := by decide
  have hcut : Text.cutAt? ' ' t.text.toList = some ("cron".toList, text.toList) := by
    rw [h, String.toList_append]
    exact Text.cutAt?_append text.toList hspace
  have hblank : Text.trimList text.toList = [] ↔ allBlank text = true := Text.trimList_eq_nil_iff
  unfold schedule
  simp only [hcut, if_true]
  split
  · next hnil => rw [if_pos (hblank.1 hnil)]
  · next hne => rw [if_neg fun hall => hne (hblank.2 hall), Text.trim]

/-- Only behind `cron` and a space stands a schedule. -/
theorem cron_of_schedule {schedule : String} (h : t.schedule = some schedule) :
    ∃ text, t.text = "cron " ++ text := by
  unfold Trigger.schedule at h
  split at h
  · next front back hcut =>
    split at h
    · next hcron =>
      refine ⟨String.ofList back, ?_⟩
      rw [← String.toList_inj, (Text.eq_append_of_cutAt? hcut).1, hcron]
      simp
    · cases h
  · cases h

/-- **The schedule is what stands behind `cron` and a space, trimmed**, unless it is blank. -/
theorem schedule_eq_some_iff {schedule : String} : t.schedule = some schedule
    ↔ ∃ text, t.text = "cron " ++ text ∧ allBlank text = false ∧ schedule = Text.trim text := by
  constructor
  · intro h
    obtain ⟨text, htext⟩ := cron_of_schedule h
    rw [schedule_of_cron htext] at h
    split at h
    · cases h
    · next hblank => exact ⟨text, htext, Bool.not_eq_true _ ▸ hblank, (Option.some.inj h).symm⟩
  · rintro ⟨text, htext, hblank, rfl⟩
    rw [schedule_of_cron htext, hblank]
    rfl

/-! ## The effective trigger -/

/-- **A declaration that stands** as it was written: its first word is `cron` or `manual`. -/
def Declared (declared : Option String) (text : String) : Prop :=
  declared = some text ∧ (HasFirstWord text "cron" ∨ HasFirstWord text "manual")

/-- The trigger of a rule without such a declaration. -/
def undeclared (settings : TopologySettings) : Direction → Trigger
  | .push => .eventBased
  | .pull => ⟨settings.fallbackPullTrigger⟩

theorem declared_iff {text : String} : Declared declared text
    ↔ declared = some text ∧ ((⟨text⟩ : Trigger).keyword = .cron
      ∨ (⟨text⟩ : Trigger).keyword = .manual) := by
  rw [keyword_eq_iff (k := .cron) rfl, keyword_eq_iff (k := .manual) rfl, Declared]

theorem resolve_of_declared {text : String} (h : Declared declared text) :
    resolve settings direction declared = ⟨text⟩ := by
  obtain ⟨rfl, hkeyword⟩ := declared_iff.1 h
  unfold resolve
  rcases hkeyword with hkeyword | hkeyword <;> simp [hkeyword]

theorem resolve_of_not_declared (h : ∀ text, ¬ Declared declared text) :
    resolve settings direction declared = undeclared settings direction := by
  have hempty : (⟨""⟩ : Trigger).keyword = .other := by decide
  have hkeyword : (⟨declared.getD ""⟩ : Trigger).keyword ≠ .cron
      ∧ (⟨declared.getD ""⟩ : Trigger).keyword ≠ .manual := by
    cases declared with
    | none => simp [hempty]
    | some text =>
      exact not_or.1 fun hor => h text (declared_iff.2 ⟨rfl, hor⟩)
  simp only [resolve]
  generalize (⟨declared.getD ""⟩ : Trigger).keyword = k at hkeyword
  cases k <;> cases direction <;> simp_all [undeclared]

/-- By the standard settings every rule has a trigger of a known kind, and only a push waits for
events. -/
theorem known_of_resolve_standard (direction : Direction) (declared : Option String) :
    (resolve .standard direction declared).keyword ≠ .other
      ∧ (direction = .pull → (resolve .standard direction declared).keyword ≠ .eventBased) := by
  by_cases h : ∃ text, Declared declared text
  · obtain ⟨text, htext⟩ := h
    rw [resolve_of_declared htext]
    rcases (declared_iff.1 htext).2 with hkeyword | hkeyword <;> simp [hkeyword]
  · rw [resolve_of_not_declared (not_exists.1 h)]
    cases direction <;> decide

/-! ## The transport -/

variable {transport : Option Transport}

theorem transport_of_native
    (h : HasFirstWord t.text "manual" ∨ HasFirstWord t.text "event_based") :
    t.transport transport = .native := by
  rw [← keyword_eq_iff (k := .manual) rfl, ← keyword_eq_iff (k := .eventBased) rfl] at h
  rcases h with h | h <;> simp [Trigger.transport, h]

theorem transport_of_cron (h : HasFirstWord t.text "cron") :
    t.transport transport = transport.getD .copyTool := by
  rw [← keyword_eq_iff (k := .cron) rfl] at h
  simp [Trigger.transport, h]

theorem transport_of_unknown
    (h : ∀ word ∈ ["cron", "manual", "event_based"], ¬ HasFirstWord t.text word) :
    t.transport transport = .copyTool := by
  rw [← keyword_eq_other_iff] at h
  simp [Trigger.transport, h]

end Trigger

end RegistryFleet
