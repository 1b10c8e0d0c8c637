import Mathlib
import RegistryFleet.Proofs.Text.ByteOrder
import RegistryFleet.Proofs.Text.ReadBack
import RegistryFleet.Web.Host

/-!
# Proofs/Web/Host — what the host of an address looks like

A host that was read is written anew: a name in lower case and in ASCII, a number of four octets
with points, a number of sixteen octets between brackets. Whatever was read, nothing is in what is
written that would divide an address: it is a number between brackets, or has only characters that
a name may have.

* `Text.Alike` — texts that are the same up to the case of letters.
* `Host.forall_asciiLabel` — the coding of a label adds nothing that a name may not have.
* `Host.Shape` — what hosts look like, and `Host.shape_of_ofText` that all of them do.
* `Host.Kept` — a host that is written as it was read, up to the case of letters.
-/

namespace RegistryFleet

namespace Text

/-! ## The case of letters -/

/-- **Two texts are alike**: they are the same up to the case of letters. -/
def Alike (cs ds : List Char) : Prop := cs.map Char.toLower = ds.map Char.toLower

instance {cs ds : List Char} : Decidable (Alike cs ds) := inferInstanceAs (Decidable (_ = _))

variable {c d : Char}

theorem alike_toLower (cs : List Char) : Alike (cs.map Char.toLower) cs := by
  rw [Alike, List.map_map]
  exact List.map_congr_left fun c _ => Char.toLower_toLower_eq_toLower c

/-- Only letters have a case. -/
theorem toLower_of_isAlpha (h : c.isAlpha = false) : c.toLower = c :=
  Char.toLower_eq_of_not_isUpper fun hupper => by
    rw [Char.isAlpha, hupper] at h
    cases h

/-- A character that is no letter is told from every other. -/
theorem eq_of_toLower (h : c.toLower = d.toLower) (hd : d.isAlpha = false) : c = d := by
  have hc : c.isAlpha = false := by
    rw [← Char.isAlpha_toLower_eq_isAlpha, h, Char.isAlpha_toLower_eq_isAlpha, hd]
  rwa [toLower_of_isAlpha hc, toLower_of_isAlpha hd] at h

/-- A character that is no letter stands in both or in none of two texts that are alike. -/
theorem Alike.mem {cs ds : List Char} (h : Alike cs ds) (hc : c ∈ cs)
    (hletter : c.isAlpha = false) : c ∈ ds := by
  have hlower : c.toLower ∈ ds.map Char.toLower := h ▸ List.mem_map_of_mem hc
  obtain ⟨d, hd, he⟩ := List.mem_map.1 hlower
  exact eq_of_toLower he hletter ▸ hd

/-- Texts that are alike go on alike behind a character that is no letter, where it stands first. -/
theorem Alike.behind {xs ys xs' ys' : List Char} (h : Alike (xs ++ d :: ys) (xs' ++ d :: ys'))
    (hletter : d.isAlpha = false) (hxs : d ∉ xs) (hxs' : d ∉ xs') : Alike ys ys' := by
  have hcut : ∀ {xs : List Char} (ys : List Char), d ∉ xs →
      cutAt? d ((xs ++ d :: ys).map Char.toLower)
        = some (xs.map Char.toLower, ys.map Char.toLower) := by
    intro xs ys hxs
    have hnot : d ∉ xs.map Char.toLower := fun hmem => by
      obtain ⟨e, he, hlower⟩ := List.mem_map.1 hmem
      rw [← toLower_of_isAlpha hletter] at hlower
      exact hxs (eq_of_toLower hlower hletter ▸ he)
    rw [List.map_append, List.map_cons, toLower_of_isAlpha hletter, cutAt?_append _ hnot]
  have hsome := (hcut ys hxs).symm.trans ((congrArg (cutAt? d) h).trans (hcut ys' hxs'))
  exact (Prod.mk.inj (Option.some.inj hsome)).2

end Text

namespace Web

/-! ## Joined texts -/

/-- What stands in a joined text is the mark or stands in one of the parts. -/
theorem mem_of_mem_intercalate {d c : Char} : ∀ {parts : List (List Char)},
    c ∈ [d].intercalate parts → c = d ∨ ∃ p ∈ parts, c ∈ p
  | [], h => by simp at h
  | [p], h => .inr ⟨p, List.mem_singleton_self p, by simpa using h⟩
  | p :: q :: rest, h => by
      have h : c ∈ p ∨ c = d ∨ c ∈ [d].intercalate (q :: rest) := by simpa using h
      rcases h with h | h | h
      · exact .inr ⟨p, List.mem_cons_self, h⟩
      · exact .inl h
      · exact (mem_of_mem_intercalate h).imp_right fun ⟨r, hr, hc⟩ =>
          ⟨r, List.mem_cons_of_mem p hr, hc⟩

/-- What stands in a part stands in the joined text. -/
theorem mem_intercalate_of_mem {d c : Char} : ∀ {parts : List (List Char)} {p : List Char},
    p ∈ parts → c ∈ p → c ∈ [d].intercalate parts
  | [_], _, hp, hc => by
      rw [List.mem_singleton] at hp
      subst hp
      simpa using hc
  | q :: r :: rest, p, hp, hc => by
      have hmem : c ∈ q ∨ c = d ∨ c ∈ [d].intercalate (r :: rest) := by
        rcases List.mem_cons.1 hp with rfl | hp
        · exact .inl hc
        · exact .inr (.inr (mem_intercalate_of_mem hp hc))
      simpa using hmem

theorem mem_of_mem_splitOn {d c : Char} {cs p : List Char} (hp : p ∈ cs.splitOn d) (hc : c ∈ p) :
    c ∈ cs := by
  have hmem : c ∈ [d].intercalate (cs.splitOn d) := mem_intercalate_of_mem hp hc
  rwa [List.intercalate_splitOn] at hmem

namespace Host

variable {cs label : List Char} {c : Char}

/-! ## Names -/

/-- A character that a name may have. -/
abbrev Allowed (c : Char) : Prop := isDenied c = false

theorem toNat_of_isDigit (h : c.isDigit = true) : 48 ≤ c.toNat ∧ c.toNat ≤ 57 := by
  simpa [Char.isDigit, UInt32.le_iff_toNat_le] using h

theorem toNat_of_isUpper (h : c.isUpper = true) : 65 ≤ c.toNat ∧ c.toNat ≤ 90 := by
  simpa [Char.isUpper, UInt32.le_iff_toNat_le] using h

theorem allowed_of_isDigit (h : c.isDigit = true) : Allowed c := by
  have hrange : 48 ≤ c.toNat ∧ c.toNat ≤ 57 := toNat_of_isDigit h
  have hmarks : ("%/:<>?@[\\]^|#".toList.all fun d => !d.isDigit) = true := by decide
  have hmem : c ∉ "%/:<>?@[\\]^|#".toList := fun hc => by
    have hnot := List.all_eq_true.1 hmarks c hc
    rw [h] at hnot
    cases hnot
  simp only [Allowed, isDenied, Bool.or_eq_false_iff, decide_eq_false_iff_not, beq_eq_false_iff_ne,
    List.contains_eq_mem]
  exact ⟨⟨by omega, by omega⟩, hmem⟩

/-- The digits of the coding are letters and digits. -/
theorem allowed_labelDigit : ∀ d < 36, Allowed (labelDigit d) := by decide

theorem forall_labelDigits (bias : Nat) : ∀ fuel k q : Nat,
    ∀ c ∈ labelDigits bias fuel k q, Allowed c
  | 0, _, _, _, hc => absurd hc List.not_mem_nil
  | fuel + 1, k, q, c, hc => by
      have hthreshold : ∃ t, 1 ≤ t ∧ t ≤ 26
          ∧ (if k ≤ bias then 1 else if bias + 26 ≤ k then 26 else k - bias) = t := by
        refine ⟨_, ?_, ?_, rfl⟩ <;> split <;> try split
        all_goals omega
      obtain ⟨t, hlow, hhigh, ht⟩ := hthreshold
      rw [labelDigits, ht] at hc
      split at hc
      · next hq =>
        rw [List.mem_singleton.1 hc]
        exact allowed_labelDigit q (by omega)
      · rcases List.mem_cons.1 hc with rfl | hc
        · have hmod : (q - t) % (36 - t) < 36 - t := Nat.mod_lt _ (by omega)
          exact allowed_labelDigit _ (by omega)
        · exact forall_labelDigits bias fuel _ _ c hc

/-- One character of a label. -/
theorem forall_labelStep {basic m : Nat} {s : LabelState} (h : ∀ c ∈ s.written, Allowed c) :
    ∀ d ∈ (labelStep basic m s c).written, Allowed d := by
  rcases Nat.lt_trichotomy c.toNat m with hlt | heq | hgt
  · rwa [labelStep, if_pos hlt]
  · rw [labelStep, if_neg (Nat.not_lt_of_le (Nat.le_of_eq heq.symm)), if_pos heq]
    exact List.forall_mem_append.2 ⟨h, forall_labelDigits _ _ _ _⟩
  · rwa [labelStep, if_neg (Nat.not_lt_of_lt hgt), if_neg (Nat.ne_of_gt hgt)]

theorem forall_foldl_labelStep {basic m : Nat} : ∀ (cs : List Char) {s : LabelState},
    (∀ c ∈ s.written, Allowed c) → ∀ c ∈ (cs.foldl (labelStep basic m) s).written, Allowed c
  | [], _, h => h
  | _ :: cs, _, h => forall_foldl_labelStep cs (forall_labelStep h)

theorem forall_labelRounds {basic : Nat} : ∀ {points : List Nat} {n : Nat} {s : LabelState},
    (∀ c ∈ s.written, Allowed c) → ∀ c ∈ (labelRounds label basic points n s).written, Allowed c
  | [], _, _, h => h
  | m :: points, n, s, h => by
      rw [labelRounds]
      have hstart : ∀ c ∈ ({ s with delta := s.delta + (m - n) * (s.handled + 1) } :
          LabelState).written, Allowed c := h
      exact forall_labelRounds (forall_foldl_labelStep label hstart)

/-- **The coding of a label** adds nothing that a name may not have. -/
theorem forall_asciiLabel (h : ∀ c ∈ label, Allowed c) : ∀ c ∈ asciiLabel label, Allowed c := by
  unfold asciiLabel
  simp only
  split
  · exact h
  · have hbasic : ∀ c ∈ label.filter fun c => c.toNat < 0x80, Allowed c :=
      fun c hc => h c (List.mem_filter.1 hc).1
    have hmark : ∀ c ∈ ['x', 'n', '-', '-'], Allowed c := by
      simp only [List.forall_mem_cons]
      exact ⟨rfl, rfl, rfl, rfl, List.forall_mem_nil _⟩
    refine List.forall_mem_append.2 ⟨hmark, forall_labelRounds ?_⟩
    split
    · exact fun c hc => absurd hc List.not_mem_nil
    · exact List.forall_mem_append.2 ⟨hbasic, List.forall_mem_singleton.2 rfl⟩

/-- **A name that was read** has only characters that a name may have. -/
theorem forall_name {n : List Char} (h : name cs = .ok n) : ∀ c ∈ n, Allowed c := by
  unfold name at h
  split at h
  · cases h
  · simp only at h
    split at h
    · cases h
    · next s _ hallowed =>
      obtain rfl := Except.ok.inj h
      have hplain : ∀ c ∈ s.toList.map nameChar, Allowed c := fun c hc =>
        (Bool.not_eq_true _).mp fun hdenied => hallowed (List.any_eq_true.2 ⟨c, hc, hdenied⟩)
      intro c hc
      rcases mem_of_mem_intercalate hc with rfl | ⟨p, hp, hc⟩
      · decide
      · obtain ⟨label, hlabel, rfl⟩ := List.mem_map.1 hp
        exact forall_asciiLabel (fun c hc => hplain c (mem_of_mem_splitOn hlabel hc)) c hc

/-! ## Numbers -/

theorem forall_toString (n : Nat) : ∀ c ∈ (toString n).toList, c.isDigit = true := fun c hc => by
  rw [Nat.toString_eq_repr, Nat.toList_repr] at hc
  exact Nat.isDigit_of_mem_toDigits (by decide) (by decide) hc

theorem toList_dotted (v : Nat) : (dotted v).toList = ['.'].intercalate
    ([3, 2, 1, 0].map fun i => (toString (v / Nat.pow 256 i % 256)).toList) := by
  rw [dotted, String.toList_intercalate, List.map_map]
  rfl

theorem forall_dotted (v : Nat) : ∀ c ∈ (dotted v).toList, c = '.' ∨ c.isDigit = true := by
  intro c hc
  rw [toList_dotted] at hc
  refine (mem_of_mem_intercalate hc).imp_right fun ⟨p, hp, hc⟩ => ?_
  obtain ⟨i, -, rfl⟩ := List.mem_map.1 hp
  exact forall_toString _ c hc

theorem allowed_dotted (v : Nat) : ∀ c ∈ (dotted v).toList, Allowed c := fun c hc => by
  rcases forall_dotted v c hc with rfl | hdigit
  · rfl
  · exact allowed_of_isDigit hdigit

theorem dotted_ne_nil (v : Nat) : (dotted v).toList ≠ [] := by
  rw [toList_dotted]
  simp

/-- A character of a number of sixteen octets. -/
abbrev Sexadecimal (c : Char) : Prop := c = ':' ∨ ∃ d < 16, c = Text.lowerDigit d

theorem forall_groupText (n : Nat) : ∀ c ∈ (groupText n).toList, Sexadecimal c := by
  intro c hc
  unfold groupText at hc
  simp only at hc
  split at hc
  · exact .inr ⟨0, by decide, List.mem_singleton.1 hc⟩
  · rw [String.toList_ofList] at hc
    exact .inr (Text.exists_of_mem_lowerHex ((List.dropWhile_sublist _).subset hc))

theorem forall_groups (gs : List Nat) :
    ∀ c ∈ (":".intercalate (gs.map groupText)).toList, Sexadecimal c := by
  intro c hc
  rw [String.toList_intercalate, List.map_map] at hc
  rcases mem_of_mem_intercalate hc with rfl | ⟨p, hp, hc⟩
  · exact .inl rfl
  · obtain ⟨g, -, rfl⟩ := List.mem_map.1 hp
    exact forall_groupText g c hc

theorem forall_ipv6Text (gs : List Nat) : ∀ c ∈ (ipv6Text gs).toList, Sexadecimal c := by
  rw [ipv6Text]
  generalize longestZeros 0 gs = zeros
  by_cases hzeros : zeros.2 < 2
  · simp only [if_pos hzeros]
    exact forall_groups gs
  · have hcolons : ∀ c ∈ "::".toList, Sexadecimal c := fun c hc => .inl (by simpa using hc)
    simp only [if_neg hzeros, String.toList_append]
    exact List.forall_mem_append.2
      ⟨List.forall_mem_append.2 ⟨forall_groups _, hcolons⟩, forall_groups _⟩

/-! ## Hosts -/

/-- **What hosts look like**: a number between brackets, or characters that a name may have. -/
inductive Shape : List Char → Prop
  | bracketed {inner : List Char} (h : ∀ c ∈ inner, Sexadecimal c) : Shape ('[' :: (inner ++ [']']))
  | plain {cs : List Char} (hne : cs ≠ []) (h : ∀ c ∈ cs, Allowed c) : Shape cs

/-- A host that is no number between brackets is a name, and may be a number of four octets. -/
theorem ofText_of_name {domain : List Char} (hhead : cs.head? ≠ some '[')
    (hname : name cs = .ok domain) (hne : domain ≠ []) : ofText cs
      = if endsInNumber domain = true then ipv4 domain else .ok (String.ofList domain) := by
  have hsome : ¬ domain.isEmpty = true := fun h => hne (List.isEmpty_iff.1 h)
  rw [ofText, if_neg hhead, hname]
  simp only [bind, Except.bind, pure, Except.pure, if_neg hsome]

/-- **Every host that was read** looks like that. -/
theorem shape_of_ofText {host : String} (h : ofText cs = .ok host) : Shape host.toList := by
  unfold ofText at h
  split at h
  · unfold bracketed at h
    split at h
    · cases h
    · split at h
      · next gs _ =>
        obtain rfl := Except.ok.inj h
        rw [String.toList_append, String.toList_append]
        exact .bracketed (forall_ipv6Text gs)
      · cases h
  · rcases hname : name cs with fault | domain
    · rw [hname] at h
      cases h
    rw [hname] at h
    simp only [bind, Except.bind, pure, Except.pure] at h
    split at h
    · cases h
    · next hne =>
      split at h
      · unfold ipv4 at h
        split at h
        · cases h
        · split at h
          · next v _ =>
            obtain rfl := Except.ok.inj h
            exact .plain (dotted_ne_nil v) (allowed_dotted v)
          · cases h
      · obtain rfl := Except.ok.inj h
        rw [String.toList_ofList]
        exact .plain (fun hnil => hne (by rw [hnil]; rfl)) (forall_name hname)

/-! ## Hosts that are written as they are read -/

/-- **A host that is kept**: it is written as it was read, up to the case of letters. -/
def Kept (cs : List Char) : Prop :=
  ∃ host, ofText cs = .ok host ∧ Text.Alike host.toList cs

/-- **Hosts that nothing is changed about** but capital letters: names in ASCII that do not end in a
number, and numbers of four octets. -/
inductive Ordinary : List Char → Prop
  | name {cs : List Char} (hne : cs ≠ []) (hascii : ∀ c ∈ cs, c.toNat < 0x80)
      (hallowed : ∀ c ∈ cs, Allowed c) (hend : endsInNumber (cs.map Char.toLower) = false) :
      Ordinary cs
  | ipv4 {v : Nat} (hv : v < 2 ^ 32) : Ordinary (dotted v).toList

theorem allowed_of_ordinary (h : Ordinary cs) : ∀ c ∈ cs, Allowed c := by
  cases h with
  | name _ _ hallowed _ => exact hallowed
  | @ipv4 v _ => exact allowed_dotted v

/-- A small letter stands for a capital one, and every other character for itself. -/
theorem toLower_cases (c : Char) :
    (∃ n < 26, c.toLower = Char.ofNat (n + 97)) ∨ c.toLower = c := by
  by_cases hupper : c.isUpper = true
  · have hrange : 65 ≤ c.toNat ∧ c.toNat ≤ 90 := toNat_of_isUpper hupper
    refine .inl ⟨c.toNat - 65, by omega, ?_⟩
    rw [Char.toLower_eq_of_isUpper hupper]
    congr 1
    omega
  · exact .inr (Char.toLower_eq_of_not_isUpper hupper)

theorem allowed_toLower (h : Allowed c) : Allowed c.toLower := by
  rcases toLower_cases c with ⟨n, hn, he⟩ | he
  · rw [he]
    exact (by decide : ∀ n < 26, Allowed (Char.ofNat (n + 97))) n hn
  · rwa [he]

theorem ascii_toLower (h : c.toNat < 0x80) : c.toLower.toNat < 0x80 := by
  rcases toLower_cases c with ⟨n, hn, he⟩ | he
  · rw [he]
    exact (by decide : ∀ n < 26, (Char.ofNat (n + 97)).toNat < 0x80) n hn
  · rwa [he]

theorem percentDecode_of_allowed : ∀ {cs : List Char}, (∀ c ∈ cs, Allowed c) →
    percentDecode cs = cs.flatMap String.utf8EncodeChar
  | [], _ => rfl
  | c :: cs, h => by
      obtain ⟨hc, hcs⟩ := List.forall_mem_cons.1 h
      have hne : c ≠ '%' := by
        rintro rfl
        cases hc
      rw [percentDecode.eq_3 _ _ fun _ _ _ he => absurd he hne, percentDecode_of_allowed hcs]
      rfl

theorem decode?_of_allowed (h : ∀ c ∈ cs, Allowed c) :
    Text.Utf8.decode? (percentDecode cs) = some (String.ofList cs) := by
  have hoctets := Text.octets_eq (String.ofList cs)
  rw [String.toList_ofList] at hoctets
  rw [percentDecode_of_allowed h, ← hoctets]
  exact Text.Utf8.decode?_octets _

theorem asciiLabel_of_ascii (h : ∀ c ∈ label, c.toNat < 0x80) : asciiLabel label = label := by
  have hbasic : (label.filter fun c => c.toNat < 0x80) = label :=
    List.filter_eq_self.2 fun c hc => by simpa using h c hc
  rw [asciiLabel]
  simp only [hbasic, if_true]

/-- **A name in ASCII** is written in lower case. -/
theorem name_of_ascii (hascii : ∀ c ∈ cs, c.toNat < 0x80) (hallowed : ∀ c ∈ cs, Allowed c) :
    name cs = .ok (cs.map Char.toLower) := by
  have hchars : cs.map nameChar = cs.map Char.toLower := List.map_congr_left fun c hc => by
    have hne : c.toNat ≠ 0x3002 := Nat.ne_of_lt (Nat.lt_trans (hascii c hc) (by decide))
    rw [nameChar, if_neg hne]
  have hlower : ∀ c ∈ cs.map Char.toLower, Allowed c ∧ c.toNat < 0x80 := fun c hc => by
    obtain ⟨d, hd, rfl⟩ := List.mem_map.1 hc
    exact ⟨allowed_toLower (hallowed d hd), ascii_toLower (hascii d hd)⟩
  have hnone : ¬ (cs.map Char.toLower).any isDenied = true := fun hany => by
    obtain ⟨c, hc, hdenied⟩ := List.any_eq_true.1 hany
    rw [(hlower c hc).1] at hdenied
    cases hdenied
  have hlabels : ((cs.map Char.toLower).splitOn '.').map asciiLabel
      = (cs.map Char.toLower).splitOn '.' := by
    refine (List.map_congr_left fun label hlabel => ?_).trans (List.map_id _)
    exact asciiLabel_of_ascii fun c hc => (hlower c (mem_of_mem_splitOn hlabel hc)).2
  rw [name, decode?_of_allowed hallowed]
  simp only [String.toList_ofList, hchars, if_neg hnone, hlabels, List.intercalate_splitOn]

/-- A number below 256 is read again. -/
theorem number?_toString : ∀ n < 256, number? (toString n).toList = some n := by decide +kernel

/-- The numbers of four octets, each in its place. -/
theorem ipv4Value?_octets {v : Nat} (hv : v < 2 ^ 32) :
    ipv4Value? ([3, 2, 1, 0].map fun i => v / Nat.pow 256 i % 256) = some v := by
  have hpowers : Nat.pow 256 3 = 16777216 ∧ Nat.pow 256 2 = 65536 ∧ Nat.pow 256 1 = 256
    ∧ Nat.pow 256 0 = 1 := by decide
  obtain ⟨hthree, htwo, hone, hzero⟩ := hpowers
  simp only [List.map_cons, List.map_nil, hthree, htwo, hone, hzero, ipv4Value?, List.reverse_cons,
    List.reverse_nil, List.nil_append, List.cons_append, List.length_cons, List.length_nil]
  rw [if_neg, List.foldl_cons, List.foldl_cons, List.foldl_cons, List.foldl_nil]
  · exact congrArg some (by omega)
  · simp only [List.any_cons, List.any_nil, Bool.or_false, Bool.or_eq_true, decide_eq_true_eq]
    omega

theorem splitOn_dotted (v : Nat) : (dotted v).toList.splitOn '.'
    = [3, 2, 1, 0].map fun i => (toString (v / Nat.pow 256 i % 256)).toList := by
  rw [toList_dotted, List.splitOn_intercalate]
  · intro l hl hdot
    obtain ⟨i, -, rfl⟩ := List.mem_map.1 hl
    exact absurd (forall_toString _ _ hdot) (by decide)
  · exact List.cons_ne_nil _ _

/-- No number is written without a digit. -/
theorem toString_ne_nil (n : Nat) : (toString n).toList ≠ [] := by
  rw [Nat.toString_eq_repr, Nat.toList_repr]
  exact Nat.toDigits_ne_nil

theorem labels_dotted (v : Nat) : labels (dotted v).toList
    = [3, 2, 1, 0].map fun i => (toString (v / Nat.pow 256 i % 256)).toList := by
  rw [labels, splitOn_dotted]
  refine if_neg fun hempty => toString_ne_nil (v / Nat.pow 256 0 % 256) ?_
  exact Option.some.inj hempty.2

theorem name_dotted (v : Nat) : name (dotted v).toList = .ok (dotted v).toList := by
  have hplain : ∀ c ∈ (dotted v).toList, c.toNat < 0x80 ∧ c.toLower = c := fun c hc => by
    rcases forall_dotted v c hc with rfl | hdigit
    · decide
    · have hrange : 48 ≤ c.toNat ∧ c.toNat ≤ 57 := toNat_of_isDigit hdigit
      refine ⟨by omega, Char.toLower_eq_of_not_isUpper fun hupper => ?_⟩
      have hcapital : 65 ≤ c.toNat := (toNat_of_isUpper hupper).1
      omega
  rw [name_of_ascii (fun c hc => (hplain c hc).1) (allowed_dotted v)]
  exact congrArg Except.ok ((List.map_congr_left fun c hc => (hplain c hc).2).trans (List.map_id _))

theorem endsInNumber_dotted (v : Nat) : endsInNumber (dotted v).toList = true := by
  have hlast : (labels (dotted v).toList).getLast?
      = some (toString (v / Nat.pow 256 0 % 256)).toList := by
    rw [labels_dotted]
    rfl
  obtain ⟨c, cs, hcs⟩ := List.exists_cons_of_ne_nil (toString_ne_nil (v / Nat.pow 256 0 % 256))
  have hdigits := forall_toString (v / Nat.pow 256 0 % 256)
  rw [hcs] at hlast hdigits
  rw [endsInNumber, hlast]
  simp only [List.all_eq_true.2 hdigits, Bool.true_or]

/-- **A number of four octets** is read again. -/
theorem ipv4_dotted {v : Nat} (hv : v < 2 ^ 32) : ipv4 (dotted v).toList = .ok (dotted v) := by
  have hnumbers : (labels (dotted v).toList).mapM number?
      = some ([3, 2, 1, 0].map fun i => v / Nat.pow 256 i % 256) := by
    have hread : ∀ i, number? (toString (v / Nat.pow 256 i % 256)).toList
        = some (v / Nat.pow 256 i % 256) := fun i => number?_toString _ (Nat.mod_lt _ (by decide))
    rw [labels_dotted]
    simp only [List.map_cons, List.map_nil, List.mapM_cons, hread, List.mapM_nil]
    rfl
  rw [ipv4, hnumbers]
  simp only [ipv4Value?_octets hv]

/-- **Nothing is changed about an ordinary host** but capital letters. -/
theorem kept_of_ordinary (h : Ordinary cs) : Kept cs := by
  cases h with
  | name hne hascii hallowed hend =>
    have hhead : cs.head? ≠ some '[' := fun h => by
      have hmark := hallowed _ (List.mem_of_head? h)
      cases hmark
    have hlower : cs.map Char.toLower ≠ [] := fun h => hne (List.map_eq_nil_iff.1 h)
    refine ⟨String.ofList (cs.map Char.toLower), ?_, ?_⟩
    · rw [ofText_of_name hhead (name_of_ascii hascii hallowed) hlower, hend]
      rfl
    · rw [String.toList_ofList]
      exact Text.alike_toLower cs
  | @ipv4 v hv =>
    have hhead : (dotted v).toList.head? ≠ some '[' := fun h => by
      have hmark := allowed_dotted v _ (List.mem_of_head? h)
      cases hmark
    refine ⟨dotted v, ?_, rfl⟩
    rw [ofText_of_name hhead (name_dotted v) (dotted_ne_nil v), if_pos (endsInNumber_dotted v),
      ipv4_dotted hv]

end Host

end Web

end RegistryFleet
