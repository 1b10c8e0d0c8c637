import RegistryFleet.Proofs.Copy.Names
import RegistryFleet.Proofs.Topology.Trigger
import Mathlib.Data.Bool.AllAny

/-!
# Proofs/Copy/Label — the names of objects are labels

A name is made of a text in four steps: its characters are mapped, dashes are trimmed at both ends,
what is left is cut to a length, and dashes that the cut has exposed are trimmed again. The second
trimming cannot reach the first character, which is no dash since the first one: so a name is empty
only where no character of the text counts, or none may be kept.

* `Label.Canonical` — what a name is: empty, or made of label characters without a dash at an end.
* `CopyJob.dnsLabel_eq_self_iff` — the canonical texts that are short enough are the fixed points.
* `CopyJob.dnsLabel_eq_empty_iff` — when a name is empty.
* `CopyJob.names_are_labels` — the objects of a rule have labels for names just if its base is not
  empty.
-/

namespace RegistryFleet

/-! ## Labels -/

namespace Label

/-- A character that a label may begin and end with: a lower case letter or a digit. -/
def Outer (c : Char) : Prop := ('a' ≤ c ∧ c ≤ 'z') ∨ ('0' ≤ c ∧ c ≤ '9')

instance (c : Char) : Decidable (Outer c) := inferInstanceAs (Decidable (_ ∨ _))

/-- A letter or a digit of ASCII. -/
def Counts (c : Char) : Prop := Outer c ∨ ('A' ≤ c ∧ c ≤ 'Z')

/-- **Empty, or a label of any length** — lower case letters, digits and dashes, with no dash at
either end. -/
structure Canonical (text : String) : Prop where
  inner : ∀ c ∈ text.toList, Outer c ∨ c = '-'
  first : ∀ c ∈ text.toList.head?, Outer c
  last : ∀ c ∈ text.toList.getLast?, Outer c

/-- **A label of a domain name.** -/
structure Valid (text : String) : Prop where
  ne_empty : text ≠ ""
  length_le : text.length ≤ 63
  canonical : Canonical text

variable {c : Char}

theorem not_outer_dash : ¬ Outer '-' := by
  unfold Outer
  decide

theorem Outer.ne_dash (h : Outer c) : (c == '-') = false :=
  beq_false_of_ne fun he => not_outer_dash (he ▸ h)

/-- Small letters and digits are no capital letters. -/
theorem Outer.not_capital (h : Outer c) : ¬ ('A' ≤ c ∧ c ≤ 'Z') := by
  simp only [Outer, Char.le_def, UInt32.le_iff_toNat_le] at h ⊢
  change (97 ≤ c.val.toNat ∧ c.val.toNat ≤ 122) ∨ (48 ≤ c.val.toNat ∧ c.val.toNat ≤ 57) at h
  change ¬ (65 ≤ c.val.toNat ∧ c.val.toNat ≤ 90)
  omega

theorem isAlphanum_iff : c.isAlphanum = true ↔ Counts c := by
  have hupper : c.isUpper = true ↔ 'A' ≤ c ∧ c ≤ 'Z' := decide_eq_true_iff
  have hlower : c.isLower = true ↔ 'a' ≤ c ∧ c ≤ 'z' :=
    (Bool.and_eq_true_iff (x := decide ('a' ≤ c))).trans
      (and_congr decide_eq_true_iff decide_eq_true_iff)
  have hdigit : c.isDigit = true ↔ '0' ≤ c ∧ c ≤ '9' :=
    (Bool.and_eq_true_iff (x := decide ('0' ≤ c))).trans
      (and_congr decide_eq_true_iff decide_eq_true_iff)
  change (c.isUpper || c.isLower || c.isDigit) = true ↔ _
  rw [Bool.or_eq_true, Bool.or_eq_true, hupper, hlower, hdigit, Counts, Outer]
  tauto

/-- A capital letter has a small one; every other character stays as it is. -/
theorem toLower_cases (c : Char) :
    (('A' ≤ c ∧ c ≤ 'Z') ∧ Outer c.toLower) ∨ (¬ ('A' ≤ c ∧ c ≤ 'Z') ∧ c.toLower = c) := by
  unfold Char.toLower
  split
  · next h =>
    have hlow : 65 ≤ c.val.toNat := UInt32.le_iff_toNat_le.1 h.1
    have hhigh : c.val.toNat ≤ 90 := UInt32.le_iff_toNat_le.1 h.2
    have hsum : (c.val + ('a'.val - 'A'.val)).toNat = c.val.toNat + 32 := by
      have hshift : ('a'.val - 'A'.val).toNat = 32 := rfl
      rw [UInt32.toNat_add, hshift, Nat.mod_eq_of_lt (by omega)]
    refine .inl ⟨⟨h.1, h.2⟩, .inl ⟨UInt32.le_iff_toNat_le.2 ?_, UInt32.le_iff_toNat_le.2 ?_⟩⟩
    · change 97 ≤ (c.val + ('a'.val - 'A'.val)).toNat
      omega
    · change (c.val + ('a'.val - 'A'.val)).toNat ≤ 122
      omega
  · next h => exact .inr ⟨fun hc => h ⟨hc.1, hc.2⟩, rfl⟩

end Label

open Label (Outer Counts Canonical Valid)

/-! ## Trimming and cutting -/

namespace Text

variable {p : Char → Bool} {cs : List Char}

theorem dropWhile_eq_self (h : ∀ c ∈ cs.head?, p c = false) : cs.dropWhile p = cs := by
  cases cs with
  | nil => rfl
  | cons c cs => exact List.dropWhile_cons_of_neg (by simp [h c rfl])

theorem dropEndWhile_eq_self (h : ∀ c ∈ cs.getLast?, p c = false) : dropEndWhile p cs = cs := by
  rw [dropEndWhile, dropWhile_eq_self (by rwa [List.head?_reverse]), List.reverse_reverse]

theorem dropEndWhile_eq_nil_iff : dropEndWhile p cs = [] ↔ ∀ c ∈ cs, p c = true := by
  simp [dropEndWhile, List.dropWhile_eq_nil_iff]

end Text

namespace CopyJob

variable {c : Char} {text : String} {longest : Nat}

theorem labelChar_of_counts (h : Counts c) : Outer (labelChar c) := by
  have hlower : Outer c.toLower := by
    rcases Label.toLower_cases c with ⟨-, hsmall⟩ | ⟨hcapital, he⟩
    · exact hsmall
    · exact he.symm ▸ h.resolve_right hcapital
  have hkept : c.toLower.isAlphanum = true := Label.isAlphanum_iff.2 (.inl hlower)
  simpa [labelChar, hkept] using hlower

theorem labelChar_of_not_counts (h : ¬ Counts c) : labelChar c = '-' := by
  have hsame : c.toLower = c := by
    rcases Label.toLower_cases c with ⟨hcapital, -⟩ | ⟨-, he⟩
    · exact absurd (.inr hcapital) h
    · exact he
  have hdropped : c.isAlphanum = false := by
    simpa using mt Label.isAlphanum_iff.1 h
  simp only [labelChar, hsame, hdropped, Bool.false_or]
  split
  · next he => exact beq_iff_eq.1 he
  · rfl

theorem labelChar_of_outer (h : Outer c) : labelChar c = c := by
  have hsame : c.toLower = c := by
    rcases Label.toLower_cases c with ⟨hcapital, -⟩ | ⟨-, he⟩
    · exact absurd hcapital h.not_capital
    · exact he
  have hkept : c.isAlphanum = true := Label.isAlphanum_iff.2 (.inl h)
  simp [labelChar, hsame, hkept]

/-- A character becomes a dash just if it does not count. -/
theorem labelChar_eq_dash_iff : labelChar c = '-' ↔ ¬ Counts c :=
  ⟨fun he h => Label.not_outer_dash (he ▸ labelChar_of_counts h), labelChar_of_not_counts⟩

theorem labelChar_inner (c : Char) : Outer (labelChar c) ∨ labelChar c = '-' := by
  by_cases h : Counts c
  · exact .inl (labelChar_of_counts h)
  · exact .inr (labelChar_of_not_counts h)

/-! ## Names -/

/-- What is left of a text when its characters have been mapped and dashes trimmed at both ends. -/
def trimmed (text : String) : List Char :=
  dropDashes ((text.toList.map labelChar).dropWhile (· == '-'))

theorem toList_dnsLabel (text : String) (longest : Nat) :
    (dnsLabel text longest).toList = dropDashes ((trimmed text).take longest) :=
  String.toList_ofList

theorem inner_of_mem_dnsLabel (h : c ∈ (dnsLabel text longest).toList) : Outer c ∨ c = '-' := by
  obtain ⟨d, -, rfl⟩ := List.mem_map.1 ((dnsLabel_sublist text longest).subset h)
  exact labelChar_inner d

theorem ne_dash_of_mem_head?_trimmed (h : c ∈ (trimmed text).head?) : (c == '-') = false :=
  Text.of_mem_head?_dropWhile (p := (· == '-')) (Text.of_mem_head?_dropEndWhile h)

theorem mem_head?_trimmed (h : c ∈ (dnsLabel text longest).toList.head?) :
    c ∈ (trimmed text).head? := by
  rw [toList_dnsLabel] at h
  have htake := Text.of_mem_head?_dropEndWhile h
  rw [List.head?_take] at htake
  split at htake
  · cases htake
  · exact htake

/-- **Every name is canonical.** -/
theorem canonical_dnsLabel (text : String) (longest : Nat) : Canonical (dnsLabel text longest) where
  inner _ hc := inner_of_mem_dnsLabel hc
  first c hc := by
    refine (inner_of_mem_dnsLabel (List.mem_of_mem_head? hc)).resolve_right fun he => ?_
    exact absurd (ne_dash_of_mem_head?_trimmed (mem_head?_trimmed hc)) (by simp [he])
  last c hc := by
    refine (inner_of_mem_dnsLabel (List.mem_of_mem_getLast? hc)).resolve_right fun he => ?_
    rw [toList_dnsLabel] at hc
    exact absurd (Text.of_mem_getLast?_dropEndWhile (p := (· == '-')) hc) (by simp [he])

/-- **No name is longer than allowed.** -/
theorem length_dnsLabel_le (text : String) (longest : Nat) :
    (dnsLabel text longest).length ≤ longest := by
  rw [← String.length_toList, toList_dnsLabel]
  exact (Text.dropEndWhile_sublist _ _).length_le.trans (List.length_take_le _ _)

theorem labelChar_of_inner (h : Outer c ∨ c = '-') : labelChar c = c := by
  rcases h with h | rfl
  · exact labelChar_of_outer h
  · exact labelChar_of_not_counts fun h => h.elim Label.not_outer_dash (by decide)

/-- A canonical text is neither mapped to another nor trimmed. -/
theorem trimmed_of_canonical (h : Canonical text) : trimmed text = text.toList := by
  have hmap : text.toList.map labelChar = text.toList :=
    List.map_congr_left (fun c hc => labelChar_of_inner (h.inner c hc)) |>.trans (List.map_id _)
  rw [trimmed, hmap, Text.dropWhile_eq_self fun c hc => (h.first c hc).ne_dash]
  exact Text.dropEndWhile_eq_self fun c hc => (h.last c hc).ne_dash

/-- **The fixed points** are the canonical texts that are short enough. -/
theorem dnsLabel_eq_self_iff :
    dnsLabel text longest = text ↔ Canonical text ∧ text.length ≤ longest := by
  constructor
  · intro h
    exact ⟨h ▸ canonical_dnsLabel text longest, h ▸ length_dnsLabel_le text longest⟩
  · rintro ⟨hcanonical, hlength⟩
    rw [← String.toList_inj, toList_dnsLabel, trimmed_of_canonical hcanonical,
      List.take_of_length_le (String.length_toList.trans_le hlength)]
    exact Text.dropEndWhile_eq_self fun c hc => (hcanonical.last c hc).ne_dash

/-- Nothing is left of a text in which no character counts. -/
theorem trimmed_eq_nil_iff : trimmed text = [] ↔ ∀ c ∈ text.toList, ¬ Counts c := by
  simp only [trimmed, dropDashes, Text.dropEndWhile_dropWhile_eq_nil_iff, List.all_map,
    List.all_eq_true, Function.comp_apply, beq_iff_eq, labelChar_eq_dash_iff]

/-- **When a name is empty** — no character may be kept, or none of the text counts. -/
theorem dnsLabel_eq_empty_iff :
    dnsLabel text longest = "" ↔ longest = 0 ∨ ∀ c ∈ text.toList, ¬ Counts c := by
  rw [← trimmed_eq_nil_iff, ← String.toList_eq_nil_iff, toList_dnsLabel, dropDashes,
    Text.dropEndWhile_eq_nil_iff]
  cases longest with
  | zero => simp
  | succ n =>
    cases htrimmed : trimmed text with
    | nil => simp
    | cons c cs =>
      -- The cut keeps the first character, which is no dash.
      have hhead : c ∈ (trimmed text).head? := by simp [htrimmed]
      have hc : c ≠ '-' := beq_eq_false_iff_ne.1 (ne_dash_of_mem_head?_trimmed hhead)
      simp [hc]

/-! ## The names of a rule -/

/-- The base of the names of a rule is empty just if neither its project nor the registry at its
other end has a letter or a digit. -/
theorem baseName_eq_empty_iff (rule : Rule) :
    baseName rule = "" ↔ ∀ c, c ∈ rule.project.toList ∨ c ∈ rule.there.toList → ¬ Counts c := by
  have hroom : longestName - "-job".length ≠ 0 := by decide
  have hdash : ¬ Counts '-' := fun h => h.elim Label.not_outer_dash (by decide)
  rw [baseName, dnsLabel_eq_empty_iff, or_iff_right hroom]
  simp only [String.toList_append, List.mem_append]
  constructor
  · rintro h c (hc | hc)
    · exact h c (.inl (.inl hc))
    · exact h c (.inr hc)
  · rintro h c ((hc | hc) | hc)
    · exact h c (.inl hc)
    · exact List.mem_singleton.1 hc ▸ hdash
    · exact h c (.inr hc)

/-- An ending that begins with a dash makes a label of every base but the empty one. -/
theorem valid_append_iff {base ending : String} (hbase : Canonical base)
    (hlength : (base ++ ending).length ≤ 63) (hdash : '-' ∈ ending.toList.head?)
    (hinner : ∀ c ∈ ending.toList, Outer c ∨ c = '-') {last : Char}
    (hlast : ending.toList.getLast? = some last) (houter : Outer last) :
    Valid (base ++ ending) ↔ base ≠ "" := by
  constructor
  · rintro ⟨-, -, -, hfirst, -⟩ rfl
    rw [String.empty_append] at hfirst
    exact Label.not_outer_dash (hfirst '-' hdash)
  · intro hne
    have hnil : base.toList ≠ [] := fun h => hne (String.toList_eq_nil_iff.1 h)
    have hending : ending.toList ≠ [] := fun h => by simp [h] at hdash
    refine ⟨fun h => hne (String.append_eq_empty_iff.1 h).1, hlength, ⟨?_, ?_, ?_⟩⟩
    · intro c hc
      rw [String.toList_append, List.mem_append] at hc
      exact hc.elim (hbase.inner c) (hinner c)
    · intro c hc
      rw [String.toList_append, List.head?_append_of_ne_nil _ hnil] at hc
      exact hbase.first c hc
    · intro c hc
      rw [String.toList_append, List.getLast?_append_of_ne_nil _ hending, hlast] at hc
      exact Option.some.inj hc ▸ houter

/-- The name of a cron job keeps the limit. -/
theorem length_jobName_le (rule : Rule) : (jobName rule).length ≤ longestName := by
  have hbase := length_dnsLabel_le (rule.project ++ "-" ++ rule.there) (longestName - "-job".length)
  have hending : "-job".length ≤ longestName := by decide
  rw [jobName, String.length_append, baseName]
  omega

theorem length_configMapName_le (rule : Rule) : (configMapName rule).length ≤ longestName := by
  have hending : "-cm".length ≤ "-job".length := by decide
  have hlength := length_jobName_le rule
  rw [jobName, String.length_append] at hlength
  rw [configMapName, String.length_append]
  omega

/-- **The names of a rule's objects are labels** just if their base is not empty. -/
theorem valid_names_iff (rule : Rule) :
    Valid (jobName rule) ∧ Valid (configMapName rule) ↔ baseName rule ≠ "" := by
  have hlongest : longestName ≤ 63 := by decide
  have hbase : Canonical (baseName rule) := canonical_dnsLabel _ _
  have hjob : Valid (jobName rule) ↔ baseName rule ≠ "" :=
    valid_append_iff hbase ((length_jobName_le rule).trans hlongest) rfl
      (List.all_iff_forall_prop.1 (by decide)) rfl (by decide)
  have hmap : Valid (configMapName rule) ↔ baseName rule ≠ "" :=
    valid_append_iff hbase ((length_configMapName_le rule).trans hlongest) rfl
      (List.all_iff_forall_prop.1 (by decide)) rfl (by decide)
  rw [hjob, hmap, and_self]

/-- **Names are canonical** — for every text and every limit, a name keeps the limit and is empty or
made of small letters, digits and dashes, with no dash at either end; naming a name changes nothing,
and the texts that stay as they are are the canonical ones within the limit. So the cron job of a
rule has a name of at most 52 characters, and both of its objects have labels of domain names just
if its project or the registry at its other end has a letter or a digit of ASCII. -/
theorem names_are_labels :
    (∀ (text : String) (longest : Nat),
      (dnsLabel text longest).length ≤ longest ∧ Canonical (dnsLabel text longest)
        ∧ dnsLabel (dnsLabel text longest) longest = dnsLabel text longest
        ∧ (dnsLabel text longest = text ↔ Canonical text ∧ text.length ≤ longest))
    ∧ ∀ rule : Rule, (jobName rule).length ≤ 52
      ∧ (Valid (jobName rule) ∧ Valid (configMapName rule)
        ↔ ∃ c, (c ∈ rule.project.toList ∨ c ∈ rule.there.toList) ∧ Counts c) := by
  refine ⟨fun text longest => ?_, fun rule => ⟨length_jobName_le rule, ?_⟩⟩
  · have hcanonical := canonical_dnsLabel text longest
    have hlength := length_dnsLabel_le text longest
    exact ⟨hlength, hcanonical, dnsLabel_eq_self_iff.2 ⟨hcanonical, hlength⟩, dnsLabel_eq_self_iff⟩
  · rw [valid_names_iff, ne_eq, baseName_eq_empty_iff]
    simp only [not_forall, not_not, exists_prop]

/-- The cut exposes a dash, which is trimmed as well. -/
example : dnsLabel "_a--b" 3 = "a" := by decide

end CopyJob

end RegistryFleet
