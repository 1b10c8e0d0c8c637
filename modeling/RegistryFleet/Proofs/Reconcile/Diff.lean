import RegistryFleet.Reconcile.Diff
import Mathlib.Data.List.Basic
import Mathlib.Data.List.Count
import Mathlib.Data.List.Nodup

/-!
# Proofs/Reconcile/Diff — carrying a difference out

The changes of a difference, carried out one by one, lead from the observed to the expected. Some
of them may be left out: `Change.mem_carryAll_diff` says what each element that is left out, or not,
means for the list at the end.
-/

namespace RegistryFleet

variable {α : Type} [DecidableEq α]

/-! ## The changes of a difference -/

theorem mem_diff {observed expected : List α} {c : Change α} :
    c ∈ diff observed expected
      ↔ (∃ x, c = .remove x ∧ x ∈ observed ∧ x ∉ expected)
        ∨ ∃ x, c = .add x ∧ x ∈ expected ∧ x ∉ observed := by
  simp only [diff, List.mem_append, List.mem_map, List.mem_filter, Bool.not_eq_true',
    List.contains_eq_mem, decide_eq_false_iff_not]
  constructor
  · rintro (⟨x, hx, rfl⟩ | ⟨x, hx, rfl⟩)
    · exact .inl ⟨x, rfl, hx⟩
    · exact .inr ⟨x, rfl, hx⟩
  · rintro (⟨x, rfl, hx⟩ | ⟨x, rfl, hx⟩)
    · exact .inl ⟨x, hx, rfl⟩
    · exact .inr ⟨x, hx, rfl⟩

theorem elements_diff (observed expected : List α) :
    (diff observed expected).map Change.element
      = (observed.filter fun a => !expected.contains a)
        ++ expected.filter fun e => !observed.contains e := by
  simp only [diff, List.map_append, List.map_map]
  congr 1
  · exact List.map_id _
  · exact List.map_id _

/-- An element is changed once at most, unless a list holds it twice. -/
theorem nodup_elements_diff {observed expected : List α} (ho : observed.Nodup)
    (he : expected.Nodup) : ((diff observed expected).map Change.element).Nodup := by
  rw [elements_diff]
  refine List.nodup_append.2 ⟨ho.filter _, he.filter _, fun x hx y hy hxy => ?_⟩
  obtain rfl := hxy
  have hx := (List.mem_filter.1 hx).1
  have hy := (List.mem_filter.1 hy).2
  simp [hx] at hy

namespace Change

/-! ## Carrying out -/

/-- A list after a change. -/
def carryOut (xs : List α) : Change α → List α
  | remove x => xs.erase x
  | add x => xs ++ [x]

/-- A list after changes, in order. -/
def carryAll (xs : List α) (changes : List (Change α)) : List α := changes.foldl carryOut xs

theorem carryAll_append (xs : List α) (cs ds : List (Change α)) :
    carryAll xs (cs ++ ds) = carryAll (carryAll xs cs) ds := List.foldl_append

theorem carryAll_removes : ∀ (rs xs : List α), carryAll xs (rs.map remove) = xs.diff rs
  | [], xs => (List.diff_nil xs).symm
  | r :: rs, xs => by
      rw [List.diff_cons]
      exact carryAll_removes rs (xs.erase r)

theorem carryAll_adds : ∀ (es xs : List α), carryAll xs (es.map add) = xs ++ es
  | [], xs => (List.append_nil xs).symm
  | e :: es, xs => by
      change carryAll (xs ++ [e]) (es.map add) = _
      rw [carryAll_adds es, List.append_assoc]
      rfl

/-- **What a difference leads to**, if some changes only are kept. -/
theorem carryAll_diff (observed expected : List α) (keep : α → Bool) :
    carryAll observed ((diff observed expected).filter fun c => keep c.element)
      = observed.diff (observed.filter fun a => !expected.contains a && keep a)
        ++ expected.filter fun e => !observed.contains e && keep e := by
  have hremoves : ((observed.filter fun a => !expected.contains a).map remove).filter
      (fun c => keep c.element)
        = (observed.filter fun a => !expected.contains a && keep a).map remove := by
    rw [List.filter_map, List.filter_filter]
    congr 2
    funext a
    exact Bool.and_comm _ _
  have hadds : ((expected.filter fun e => !observed.contains e).map add).filter
      (fun c => keep c.element)
        = (expected.filter fun e => !observed.contains e && keep e).map add := by
    rw [List.filter_map, List.filter_filter]
    congr 2
    funext a
    exact Bool.and_comm _ _
  rw [diff, List.filter_append, hremoves, hadds, carryAll_append, carryAll_removes, carryAll_adds]

/-- An element whose changes are kept is there at the end if it is expected, any other if it was
observed. -/
theorem mem_carryAll_diff (observed expected : List α) (keep : α → Bool) (x : α) :
    x ∈ carryAll observed ((diff observed expected).filter fun c => keep c.element)
      ↔ if keep x then x ∈ expected else x ∈ observed := by
  have hcount : x ∈ observed.diff (observed.filter fun a => !expected.contains a && keep a)
      ↔ x ∈ observed ∧ ¬ (x ∉ expected ∧ keep x = true) := by
    rw [← List.count_pos_iff, List.count_diff, ← List.count_pos_iff]
    by_cases hx : x ∉ expected ∧ keep x = true
    · rw [List.count_filter (by simp [hx])]
      simp [hx]
    · rw [List.count_eq_zero_of_not_mem (a := x) (l := List.filter _ _)]
      · simp [hx]
      · intro hmem
        simp only [List.mem_filter, List.contains_eq_mem, Bool.and_eq_true, Bool.not_eq_true',
          decide_eq_false_iff_not] at hmem
        exact hx hmem.2
  rw [carryAll_diff, List.mem_append, hcount, List.mem_filter]
  simp only [List.contains_eq_mem, Bool.and_eq_true, Bool.not_eq_true', decide_eq_false_iff_not]
  by_cases ho : x ∈ observed <;> by_cases he : x ∈ expected <;> cases keep x <;> simp [ho, he]

/-- A difference leads to no element twice. -/
theorem nodup_carryAll_diff {observed expected : List α} (ho : observed.Nodup)
    (he : expected.Nodup) (keep : α → Bool) :
    (carryAll observed ((diff observed expected).filter fun c => keep c.element)).Nodup := by
  rw [carryAll_diff]
  refine List.nodup_append.2 ⟨ho.diff, he.filter _, fun x hx y hy hxy => ?_⟩
  obtain rfl := hxy
  have hx := (List.diff_subset _ _) hx
  have hy := (List.mem_filter.1 hy).2
  simp [hx] at hy

/-- A difference takes no element away more often than it was observed. -/
theorem count_remove_diff_le (observed expected : List α) (x : α) :
    (diff observed expected).count (.remove x) ≤ observed.count x := by
  have hinj : Function.Injective (remove (α := α)) := fun _ _ h => by injection h
  have hadds : ((expected.filter fun e => !observed.contains e).map add).count (remove x)
      = 0 := by
    rw [List.count_eq_zero]
    intro hmem
    obtain ⟨e, -, he⟩ := List.mem_map.1 hmem
    cases he
  rw [diff, List.count_append, hadds, List.count_map_of_injective _ _ hinj, Nat.add_zero]
  exact List.filter_sublist.count_le x

/-! ## On the way -/

/-- **On the way from the observed to the expected** — the changes that are left lead where the
whole difference leads, and what they are to take away is there. -/
structure OnTheWay (keep : α → Bool) (observed expected xs : List α) (rest : List (Change α)) :
    Prop where
  goal : carryAll xs (rest.filter fun c => keep c.element)
    = carryAll observed ((diff observed expected).filter fun c => keep c.element)
  there : ∀ x, keep x = true → rest.count (.remove x) ≤ xs.count x

namespace OnTheWay

variable {keep : α → Bool} {observed expected xs : List α} {c : Change α} {rest : List (Change α)}

theorem start (keep : α → Bool) (observed expected : List α) :
    OnTheWay keep observed expected observed (diff observed expected) where
  goal := rfl
  there x _ := count_remove_diff_le observed expected x

/-- A change that is left out. -/
theorem pass (h : OnTheWay keep observed expected xs (c :: rest)) (hc : keep c.element = false) :
    OnTheWay keep observed expected xs rest where
  goal := by simpa [hc] using h.goal
  there x hx := Nat.le_trans List.count_le_count_cons (h.there x hx)

/-- A change that is carried out. -/
theorem carry (h : OnTheWay keep observed expected xs (c :: rest)) (hc : keep c.element = true) :
    OnTheWay keep observed expected (c.carryOut xs) rest where
  goal := by simpa [hc, carryAll] using h.goal
  there x hx := by
    have := h.there x hx
    cases c with
    | remove y =>
      rw [carryOut, List.count_erase]
      rcases eq_or_ne x y with rfl | hne
      · rw [List.count_cons_self] at this
        simp only [beq_self_eq_true, if_true]
        omega
      · rw [List.count_cons_of_ne (by simpa using hne.symm)] at this
        simpa [hne.symm] using this
    | add y =>
      rw [List.count_cons_of_ne (by simp)] at this
      rw [carryOut, List.count_append]
      omega

/-- What is to be taken away next is there. -/
theorem mem_of_remove {y : α} (h : OnTheWay keep observed expected xs (.remove y :: rest))
    (hy : keep y = true) : y ∈ xs := by
  have := h.there y hy
  rw [List.count_cons_self] at this
  exact List.count_pos_iff.1 (by omega)

/-- **At the end of the way.** -/
theorem mem_iff (h : OnTheWay keep observed expected xs []) (x : α) :
    x ∈ xs ↔ if keep x then x ∈ expected else x ∈ observed := by
  rw [← mem_carryAll_diff observed expected keep x, ← h.goal]
  rfl

end OnTheWay

end Change

end RegistryFleet
