import RegistryFleet.Proofs.Reconcile.Diff

/-!
# Proofs/Reconcile/Difference — a difference is exact, and carried out it leaves none

A difference has two halves: what it takes away is what was observed and not expected, what it puts
in is what was expected and not observed. To carry a change out is to take away one occurrence of
its element, whichever, or to put the element in at the end; the choice of occurrences decides the
order of the list at the end and nothing else.

* `removed_diff`, `added_diff` — the two halves, each with the multiplicities of its list.
* `Change.Carries` — changes carried out, and `Change.Carries.perm` that all ways are alike.
* `Change.OnTheWay.carries` — a difference can be carried out.
* `diff_exact` — a difference is exact, and it leads to the expected, where none is left.
-/

namespace RegistryFleet

variable {α : Type}

namespace Change

/-! ## The halves of a list of changes -/

@[simp] theorem removed_append (cs ds : List (Change α)) :
    removed (cs ++ ds) = removed cs ++ removed ds := List.filterMap_append

@[simp] theorem added_append (cs ds : List (Change α)) :
    added (cs ++ ds) = added cs ++ added ds := List.filterMap_append

@[simp] theorem removed_map_remove (xs : List α) : removed (xs.map remove) = xs :=
  (List.filterMap_map ..).trans List.filterMap_some

@[simp] theorem removed_map_add (xs : List α) : removed (xs.map add) = [] := by
  simp [removed, List.filterMap_map]

@[simp] theorem added_map_add (xs : List α) : added (xs.map add) = xs :=
  (List.filterMap_map ..).trans List.filterMap_some

@[simp] theorem added_map_remove (xs : List α) : added (xs.map remove) = [] := by
  simp [added, List.filterMap_map]

end Change

variable [DecidableEq α]

/-! ## The halves of a difference -/

open Change (removed added)

theorem removed_diff (observed expected : List α) :
    removed (diff observed expected) = observed.filter (· ∉ expected) := by
  simp [diff]

theorem added_diff (observed expected : List α) :
    added (diff observed expected) = expected.filter (· ∉ observed) := by
  simp [diff]

/-- All removals stand in front of all additions. -/
theorem diff_eq_removed_added (observed expected : List α) :
    diff observed expected
      = (removed (diff observed expected)).map .remove
        ++ (added (diff observed expected)).map .add := by
  rw [removed_diff, added_diff]
  simp [diff]

/-- Nothing is both taken away and put in. -/
theorem disjoint_removed_added (observed expected : List α) :
    (removed (diff observed expected)).Disjoint (added (diff observed expected)) := by
  intro x hremoved hadded
  rw [removed_diff, List.mem_filter] at hremoved
  rw [added_diff, List.mem_filter] at hadded
  exact of_decide_eq_true hremoved.2 hadded.1

/-- There is nothing to change between lists of the same elements. -/
theorem diff_eq_nil_iff {observed expected : List α} :
    diff observed expected = [] ↔ ∀ x, x ∈ observed ↔ x ∈ expected := by
  simp only [diff, List.append_eq_nil_iff, List.map_eq_nil_iff, List.filter_eq_nil_iff,
    List.contains_eq_mem, Bool.not_eq_true, Bool.not_eq_false', decide_eq_true_eq]
  exact ⟨fun h x => ⟨h.1 x, h.2 x⟩, fun h => ⟨fun x => (h x).1, fun x => (h x).2⟩⟩

namespace Change

/-! ## Carrying out, whichever occurrence is taken away -/

/-- **One change carried out** — an occurrence of its element is taken away, or the element is put
in at the end. -/
inductive Step : List α → Change α → List α → Prop
  | remove (front : List α) (x : α) (back : List α) :
      Step (front ++ x :: back) (.remove x) (front ++ back)
  | add (xs : List α) (x : α) : Step xs (.add x) (xs ++ [x])

/-- **Changes carried out**, one after the other. -/
inductive Carries : List α → List (Change α) → List α → Prop
  | nil (xs : List α) : Carries xs [] xs
  | cons {xs ys zs : List α} {c : Change α} {cs : List (Change α)} (step : Step xs c ys)
      (rest : Carries ys cs zs) : Carries xs (c :: cs) zs

variable {xs ys : List α} {c : Change α} {cs : List (Change α)}

/-- A step is taken only if what is to be taken away is there. -/
theorem step_carryOut (h : ∀ x, c = .remove x → x ∈ xs) : Step xs c (c.carryOut xs) := by
  cases c with
  | remove x =>
    obtain ⟨front, back, -, hxs, herase⟩ := List.exists_erase_eq (h x rfl)
    rw [carryOut, herase, hxs]
    exact .remove front x back
  | add x => exact .add xs x

theorem Step.perm (h : Step xs c ys) {xs' : List α} (hxs : xs.Perm xs') :
    ys.Perm (c.carryOut xs') := by
  cases h with
  | remove front x back =>
    have herase := (List.perm_middle.symm.trans hxs).erase x
    rwa [List.erase_cons_head] at herase
  | add _ x => exact hxs.append_right [x]

/-- **All ways to carry changes out are alike** but for the order. -/
theorem Carries.perm (h : Carries xs cs ys) {xs' : List α} (hxs : xs.Perm xs') :
    ys.Perm (carryAll xs' cs) := by
  induction h generalizing xs' with
  | nil => exact hxs
  | cons step _ ih => exact ih (step.perm hxs)

/-! ## Carrying a difference out -/

namespace OnTheWay

variable {observed expected : List α} {front rest : List (Change α)}

/-- Part of the way, if no change is left out. -/
theorem along (h : OnTheWay (fun _ => true) observed expected xs (front ++ rest)) :
    OnTheWay (fun _ => true) observed expected (carryAll xs front) rest := by
  induction front generalizing xs with
  | nil => exact h
  | cons c front ih => exact ih (h.carry rfl)

/-- **What is left of the way can be gone.** -/
theorem carries (h : OnTheWay (fun _ => true) observed expected xs rest) :
    Carries xs rest (carryAll xs rest) := by
  induction rest generalizing xs with
  | nil => exact .nil xs
  | cons c rest ih =>
    refine .cons (step_carryOut fun x hx => ?_) (ih (h.carry rfl))
    subst hx
    exact h.mem_of_remove rfl

end OnTheWay

/-- What a difference takes away is there when its turn comes. -/
theorem mem_of_carries {observed expected : List α} {front back : List (Change α)} {x : α}
    (h : diff observed expected = front ++ .remove x :: back) (hxs : Carries observed front xs) :
    x ∈ xs := by
  have hway : OnTheWay (fun _ => true) observed expected observed (front ++ .remove x :: back) :=
    h ▸ .start _ observed expected
  exact (hxs.perm (.refl _)).mem_iff.2 (hway.along.mem_of_remove rfl)

/-- A difference leads to the elements of the expected. -/
theorem mem_iff_of_carries {observed expected : List α}
    (h : Carries observed (diff observed expected) xs) (x : α) : x ∈ xs ↔ x ∈ expected := by
  have hall := mem_carryAll_diff observed expected (fun _ => true) x
  rw [List.filter_true] at hall
  exact (h.perm (.refl _)).mem_iff.trans hall

theorem nodup_of_carries {observed expected : List α} (ho : observed.Nodup) (he : expected.Nodup)
    (h : Carries observed (diff observed expected) xs) : xs.Nodup := by
  have hall := nodup_carryAll_diff ho he fun _ => true
  rw [List.filter_true] at hall
  exact (h.perm (.refl _)).nodup_iff.2 hall

end Change

open Change (Carries)

/-- **A difference is exact, and it leads to the expected.** It takes away what was observed and is
not expected, and puts in what is expected and was not observed, each as often and in the order in
which its list has it; all removals stand first, and nothing is both taken away and put in. Seen
from the other side, what is taken away is what is put in. There is no change just if the lists have
the same elements. What is to be taken away is always there, so that a difference can be carried
out; and however that is done, it leads to a list with the elements of the expected, which is a
permutation of it if neither list has an element twice, and from which there is no change left. -/
theorem diff_exact (observed expected : List α) :
    removed (diff observed expected) = observed.filter (· ∉ expected)
      ∧ added (diff observed expected) = expected.filter (· ∉ observed)
      ∧ diff observed expected
          = (removed (diff observed expected)).map .remove
            ++ (added (diff observed expected)).map .add
      ∧ (removed (diff observed expected)).Disjoint (added (diff observed expected))
      ∧ removed (diff observed expected) = added (diff expected observed)
      ∧ (diff observed expected = [] ↔ ∀ x, x ∈ observed ↔ x ∈ expected)
      ∧ (∀ front x back xs, diff observed expected = front ++ .remove x :: back →
          Carries observed front xs → x ∈ xs)
      ∧ (∃ xs, Carries observed (diff observed expected) xs)
      ∧ ∀ xs, Carries observed (diff observed expected) xs →
          (∀ x, x ∈ xs ↔ x ∈ expected)
          ∧ (observed.Nodup → expected.Nodup → xs.Perm expected)
          ∧ diff xs expected = [] := by
  refine ⟨removed_diff observed expected, added_diff observed expected,
    diff_eq_removed_added observed expected, disjoint_removed_added observed expected, ?_,
    diff_eq_nil_iff, fun front x back xs h => Change.mem_of_carries h,
    ⟨_, (Change.OnTheWay.start _ observed expected).carries⟩, fun xs h => ?_⟩
  · rw [removed_diff, added_diff]
  · have hmem := Change.mem_iff_of_carries h
    refine ⟨hmem, fun ho he => ?_, diff_eq_nil_iff.2 hmem⟩
    exact (List.perm_ext_iff_of_nodup (Change.nodup_of_carries ho he h) he).2 hmem

end RegistryFleet
