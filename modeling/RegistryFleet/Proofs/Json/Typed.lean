import RegistryFleet.Json.Typed
import RegistryFleet.Text.Blank

/-!
# Proofs/Json/Typed — what a document that was read says

A reading goes through the fields of a record one by one and keeps what it knows in a state. For
one field that comes to this: if the record has it, what was read of it is what stands there, and if
the record does not have it, nothing is known of it.

* `lastField?` — what a record holds under a name.
* `Typed.Slot.of_fields` — what is known of a field at the end of a record.
* `Typed.of_mapEntries` — what a map holds under a key.
* `Typed.not_read_of_blank` — nothing can be read in a text that is all blank.
-/

namespace RegistryFleet.Json

/-- **What stands under a name**; of several fields of one name, the last. -/
def lastField? (name : String) : List (String × Node) → Option Node
  | [] => none
  | (k, n) :: rest => (lastField? name rest).or (if k = name then some n else none)

namespace Typed

variable {α β σ : Type}

/-- A sequence of readings succeeds if each of them does. -/
theorem ok_of_bind {x : Except Fault α} {f : α → Except Fault β} {b : β} (h : x >>= f = .ok b) :
    ∃ a, x = .ok a ∧ f a = .ok b := by
  rcases x with e | a
  · cases h
  · exact ⟨a, rfl, h⟩

/-- A reading that leaves a value succeeded. -/
theorem ok_of_toOption {x : Except Fault α} {a : α} (h : x.toOption = some a) : x = .ok a := by
  rcases x with e | b
  · cases h
  · exact congrArg Except.ok (Option.some.inj h)

/-! ## Values of one kind -/

theorem refusal_ne_ok : ∀ {n : Node} {wanted : String} {a : α}, refusal n wanted ≠ .ok a
  | .null, _, _, h | .bool _, _, _, h | .int _, _, _, h | .float _, _, _, h | .text _, _, _, h
  | .list _, _, _, h | .record .., _, _, h | .hole, _, _, h | .unreadable, _, _, h => nomatch h

theorem eq_text_of_ok {n : Node} {s : String} (h : text n = .ok s) : n = .text s := by
  unfold text at h
  split at h
  · rw [Except.ok.inj h]
  · exact absurd h refusal_ne_ok

theorem items_text_ok : ∀ {ns : List Node} {ss : List String}, items text ns = .ok ss →
    ns = ss.map Node.text
  | [], ss, h => by
      obtain rfl : [] = ss := Except.ok.inj h
      rfl
  | n :: ns, ss, h => by
      rw [items] at h
      obtain ⟨s, hn, h⟩ := ok_of_bind h
      obtain ⟨rest, hns, h⟩ := ok_of_bind h
      obtain rfl : s :: rest = ss := Except.ok.inj h
      rw [eq_text_of_ok hn, items_text_ok hns, List.map_cons]

theorem eq_texts_of_ok {n : Node} {ss : List String} (h : list text n = .ok ss) :
    n = .list (ss.map Node.text) := by
  unfold list at h
  split at h
  · rw [items_text_ok h]
  · exact absurd h refusal_ne_ok

theorem eq_some_of_required {seen : Option α} {name : String} {a : α}
    (h : required seen name = .ok a) : seen = some a := by
  rcases seen with _ | b
  · cases h
  · exact congrArg some (Except.ok.inj h)

/-! ## Fields of a record -/

/-- **A field of a record** — it is read once, into a place of the state that no other field
touches. -/
structure Slot (known : σ → String → Option (Typed σ)) (name : String) (read : Typed β)
    (seen : σ → Option β) : Prop where
  there : ∀ s, ∃ put : β → σ, known s name = some (once (seen s) name read put)
    ∧ ∀ b, seen (put b) = some b
  elsewhere : ∀ s other r n s', other ≠ name → known s other = some r → r n = .ok s' →
    seen s' = seen s

/-- A field is read where nothing is known of it. -/
theorem of_once {seen : Option β} {name : String} {read : Typed β} {put : β → σ} {n : Node} {s : σ}
    (h : once seen name read put n = .ok s) : seen = none ∧ ∃ b, read n = .ok b ∧ s = put b := by
  unfold once at h
  split at h
  · cases h
  · next hseen =>
    rcases hn : read n with f | b
    · rw [hn] at h
      cases h
    · rw [hn] at h
      exact ⟨by simpa using hseen, b, rfl, (Except.ok.inj h).symm⟩

/-- The first of the fields, and what is read of the rest. -/
theorem of_fields_cons {known : σ → String → Option (Typed σ)} {s s' : σ} {k : String} {n : Node}
    {rest : List (String × Node)} (h : fields known s ((k, n) :: rest) = .ok s') :
    (∃ r t, known s k = some r ∧ r n = .ok t ∧ fields known t rest = .ok s')
      ∨ known s k = none ∧ fields known s rest = .ok s' := by
  rw [fields] at h
  rcases hk : known s k with _ | r
  · rw [hk] at h
    simp only at h
    split at h
    · exact .inr ⟨rfl, h⟩
    · cases h
  · rw [hk] at h
    simp only at h
    split at h
    · next t ht => exact .inl ⟨r, t, rfl, ht, h⟩
    · cases h

namespace Slot

variable {known : σ → String → Option (Typed σ)} {name : String} {read : Typed β}
  {seen : σ → Option β}

/-- What is known of a field stays known, and the field does not come again. -/
theorem stays (slot : Slot known name read seen) :
    ∀ {fs : List (String × Node)} {s s' : σ} {b : β}, fields known s fs = .ok s' →
      seen s = some b → seen s' = some b ∧ lastField? name fs = none
  | [], s, s', b, h, hb => by
      obtain rfl : s = s' := Except.ok.inj h
      exact ⟨hb, rfl⟩
  | (k, n) :: rest, s, s', b, h, hb => by
      have hk : k ≠ name := by
        rintro rfl
        obtain ⟨put, hknown, -⟩ := slot.there s
        rcases of_fields_cons h with ⟨r, t, hr, ht, -⟩ | ⟨hr, -⟩
        · obtain rfl : once (seen s) k read put = r := Option.some.inj (hknown.symm.trans hr)
          have hnone := (of_once ht).1
          rw [hb] at hnone
          cases hnone
        · rw [hknown] at hr
          cases hr
      rw [lastField?, if_neg hk, Option.or_none]
      rcases of_fields_cons h with ⟨r, t, hr, ht, hrest⟩ | ⟨-, hrest⟩
      · exact slot.stays hrest ((slot.elsewhere s k r n t hk hr ht).trans hb)
      · exact slot.stays hrest hb

/-- **What is known of a field at the end of a record.** -/
theorem of_fields (slot : Slot known name read seen) :
    ∀ {fs : List (String × Node)} {s s' : σ}, fields known s fs = .ok s' → seen s = none →
      (lastField? name fs = none ∧ seen s' = none)
        ∨ ∃ n b, lastField? name fs = some n ∧ read n = .ok b ∧ seen s' = some b
  | [], s, s', h, hs => by
      obtain rfl : s = s' := Except.ok.inj h
      exact .inl ⟨rfl, hs⟩
  | (k, n) :: rest, s, s', h, hs => by
      rw [lastField?]
      by_cases hk : k = name
      · subst hk
        obtain ⟨put, hknown, hput⟩ := slot.there s
        rcases of_fields_cons h with ⟨r, t, hr, ht, hrest⟩ | ⟨hr, -⟩
        · obtain rfl : once (seen s) k read put = r := Option.some.inj (hknown.symm.trans hr)
          obtain ⟨-, b, hb, rfl⟩ := of_once ht
          obtain ⟨hseen, hlast⟩ := slot.stays hrest (hput b)
          exact .inr ⟨n, b, by rw [hlast, if_pos rfl, Option.none_or], hb, hseen⟩
        · rw [hknown] at hr
          cases hr
      · rw [if_neg hk, Option.or_none]
        rcases of_fields_cons h with ⟨r, t, hr, ht, hrest⟩ | ⟨-, hrest⟩
        · exact slot.of_fields hrest ((slot.elsewhere s k r n t hk hr ht).trans hs)
        · exact slot.of_fields hrest hs

/-- A field that the record has is read of what stands there. -/
theorem of_there (slot : Slot known name read seen) {fs : List (String × Node)} {s s' : σ}
    {n : Node} (h : fields known s fs = .ok s') (hs : seen s = none)
    (hn : lastField? name fs = some n) :
    ∃ b, read n = .ok b ∧ seen s' = some b := by
  rcases slot.of_fields h hs with ⟨hnone, -⟩ | ⟨n', b, hn', hread, hseen⟩
  · cases hnone.symm.trans hn
  · obtain rfl := Option.some.inj (hn'.symm.trans hn)
    exact ⟨b, hread, hseen⟩

/-- Nothing is known of a field that the record does not have. -/
theorem of_missing (slot : Slot known name read seen) {fs : List (String × Node)} {s s' : σ}
    (h : fields known s fs = .ok s') (hs : seen s = none) (hn : lastField? name fs = none) :
    seen s' = none := by
  rcases slot.of_fields h hs with ⟨-, hseen⟩ | ⟨n', b, hn', -⟩
  · exact hseen
  · cases hn.symm.trans hn'

/-- What is known of a field was read of what stands there. -/
theorem of_seen (slot : Slot known name read seen) {fs : List (String × Node)} {s s' : σ} {b : β}
    (h : fields known s fs = .ok s') (hs : seen s = none) (hb : seen s' = some b) :
    ∃ n, lastField? name fs = some n ∧ read n = .ok b := by
  rcases slot.of_fields h hs with ⟨-, hseen⟩ | ⟨n, b', hn, hread, hseen⟩
  · cases hseen.symm.trans hb
  · obtain rfl := Option.some.inj (hseen.symm.trans hb)
    exact ⟨n, hn, hread⟩

end Slot

/-- A record that was read was written by field or in order. -/
theorem of_record {wanted : String} {order : List (String × Bool)} {start : σ}
    {known : σ → String → Option (Typed σ)} {finish : σ → Except Fault α} {n : Node} {a : α}
    (h : record wanted order start known finish n = .ok a) :
    (∃ fs s, n = .record fs false ∧ fields known start fs = .ok s ∧ finish s = .ok a)
      ∨ ∃ ns, n = .list ns := by
  unfold record at h
  split at h
  · next fs brokenOff =>
    obtain ⟨s, hs, h⟩ := ok_of_bind h
    rcases brokenOff with _ | _
    · exact .inl ⟨fs, s, rfl, hs, h⟩
    · cases h
  · obtain ⟨s, -, h⟩ := ok_of_bind h
    cases h
  · next ns => exact .inr ⟨ns, rfl⟩
  · exact absurd h refusal_ne_ok

/-! ## Maps -/

/-- **What a map holds under a key** is read from what stands there. -/
theorem of_mapEntries {read : Typed α} (key : String) :
    ∀ {fs : List (String × Node)} {m m' : Keyed α}, mapEntries read m fs = .ok m' →
      (lastField? key fs = none ∧ m'.get? key = m.get? key)
        ∨ ∃ n a, lastField? key fs = some n ∧ read n = .ok a ∧ m'.get? key = some a
  | [], m, m', h => by
      obtain rfl : m = m' := Except.ok.inj h
      exact .inl ⟨rfl, rfl⟩
  | (k, n) :: rest, m, m', h => by
      rw [mapEntries] at h
      obtain ⟨a, hn, h⟩ := ok_of_bind h
      rw [lastField?]
      rcases of_mapEntries key h with ⟨hlast, hget⟩ | ⟨n', a', hlast, hread, hget⟩
      · rw [hlast, Option.none_or, hget, Keyed.get?_insert]
        by_cases hk : k = key
        · rw [if_pos hk, if_pos hk.symm]
          exact .inr ⟨n, a, rfl, hn, rfl⟩
        · rw [if_neg hk, if_neg (Ne.symm hk)]
          exact .inl ⟨rfl, rfl⟩
      · exact .inr ⟨n', a', by rw [hlast, Option.some_or], hread, hget⟩

/-- A map that was read is a record, and holds what stands there. -/
theorem of_map {read : Typed α} {n : Node} {m : Keyed α} (h : map read n = .ok m) :
    ∃ fs, n = .record fs false ∧ ∀ key, (lastField? key fs = none ∧ m.get? key = none)
      ∨ ∃ n a, lastField? key fs = some n ∧ read n = .ok a ∧ m.get? key = some a := by
  unfold map at h
  split at h
  · next fs brokenOff =>
    obtain ⟨m', hm, h⟩ := ok_of_bind h
    rcases brokenOff with _ | _
    · obtain rfl : m' = m := Except.ok.inj h
      exact ⟨fs, rfl, fun key => of_mapEntries key hm⟩
    · cases h
  · obtain ⟨m', -, h⟩ := ok_of_bind h
    cases h
  · exact absurd h refusal_ne_ok

end Typed

/-! ## Texts that are all blank -/

theorem isDigit_of_isBlank {c : Char} (h : Text.isBlank c = true) : c.isDigit = false := by
  refine Bool.eq_false_iff.2 fun hdigit => ?_
  have hrange : 48 ≤ c.toNat ∧ c.toNat ≤ 57 := by
    simpa [Char.isDigit, UInt32.le_iff_toNat_le] using hdigit
  simp only [Text.isBlank, Bool.or_eq_true, Bool.and_eq_true, decide_eq_true_eq, beq_iff_eq] at h
  omega

/-- A number begins with a digit or a minus sign. -/
theorem number?_of_ne {c : Char} {cs : List Char} (hminus : c ≠ '-') (hdigit : c.isDigit = false) :
    number? (c :: cs) = none := by
  have hwhole : wholePart? (c :: cs) = none := by
    rw [wholePart?]
    · simp [hdigit]
    · rintro rest he
      obtain ⟨rfl, -⟩ := List.cons.inj he
      cases hdigit
  unfold number?
  split
  next he =>
  split at he
  · next h => exact absurd (List.cons.inj h).1 hminus
  · obtain ⟨-, rfl⟩ := Prod.mk.inj he
    rw [hwhole]
    rfl

theorem value_blank {cs : List Char} (h : ∀ c ∈ cs, Text.isBlank c = true) :
    ∀ fuel : Nat, value fuel cs = (.hole, none)
  | 0 => rfl
  | fuel + 1 => by
      rw [value]
      have hrest : ∀ c ∈ skipSpace cs, Text.isBlank c = true := fun c hc =>
        h c ((List.dropWhile_sublist _).subset hc)
      generalize skipSpace cs = ds at hrest
      have hne : ∀ c rest, ds = c :: rest → ∀ d, Text.isBlank d = false → c ≠ d := by
        rintro c rest rfl d hd rfl
        rw [hrest c List.mem_cons_self] at hd
        cases hd
      split
      · rfl
      · exact absurd rfl (hne _ _ rfl 'n' (by decide))
      · exact absurd rfl (hne _ _ rfl 't' (by decide))
      · exact absurd rfl (hne _ _ rfl 'f' (by decide))
      · exact absurd rfl (hne _ _ rfl '"' (by decide))
      · exact absurd rfl (hne _ _ rfl '[' (by decide))
      · exact absurd rfl (hne _ _ rfl '\x7b' (by decide))
      · next hnil _ _ _ _ _ _ =>
        obtain ⟨c, rest, rfl⟩ := List.exists_cons_of_ne_nil hnil
        have hc := hrest c List.mem_cons_self
        rw [number?_of_ne (hne c rest rfl '-' (by decide)) (isDigit_of_isBlank hc)]

/-- **Nothing can be read in a text that is all blank.** -/
theorem Typed.not_read_of_blank {α : Type} {typed : Typed α} {text : String} {a : α}
    (h : Text.allBlank text = true) : typed.read text ≠ .ok a := by
  have htree : ofText text = (.hole, false) := by
    rw [ofText, value_blank (List.all_eq_true.1 h)]
    rfl
  rw [Typed.read, htree]
  intro he
  change (typed .hole >>= fun _ => (.error .malformed : Except Fault α)) = .ok a at he
  obtain ⟨-, -, he⟩ := Typed.ok_of_bind he
  cases he

end RegistryFleet.Json
