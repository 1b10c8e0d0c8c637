import RegistryFleet.Keyed
import Mathlib.Data.List.Nodup
import Mathlib.Tactic.Tauto

/-!
# Proofs/Keyed — the listing of a map

The listed keys are the bound ones, each listed once; maps in which every key is bound to the same
are the same, so that a map of the values goes with every operation.
-/

namespace RegistryFleet.Keyed

variable {α : Type}

theorem isSome_lookUp? (k : String) : ∀ es : List (String × α),
    (lookUp? k es).isSome = true ↔ k ∈ es.map (·.1)
  | [] => by simp [lookUp?]
  | (k', v) :: rest => by
      have ih := isSome_lookUp? k rest
      by_cases h : k = k'
      · simp [lookUp?, h]
      · simp [lookUp?, h, ← ih]

/-- **The listed keys are the bound ones.** -/
theorem mem_keys {m : Keyed α} {k : String} : k ∈ m.keys ↔ ∃ v, m.get? k = some v :=
  (isSome_lookUp? k m.entries).symm.trans Option.isSome_iff_exists

theorem contains_iff {m : Keyed α} {k : String} :
    m.contains k = true ↔ ∃ v, m.get? k = some v :=
  Option.isSome_iff_exists

/-- **No key is listed twice.** -/
theorem nodup_keys (m : Keyed α) : m.keys.Nodup := by
  refine List.pairwise_map.2 (List.Pairwise.imp (fun h he => ?_) m.sorted)
  rw [he] at h
  exact String.lt_irrefl _ h

@[simp] theorem get?_insert_self (m : Keyed α) (k : String) (v : α) :
    (m.insert k v).get? k = some v := by
  simp [get?_insert]

theorem get?_insert_of_ne {m : Keyed α} {k j : String} {v : α} (h : j ≠ k) :
    (m.insert k v).get? j = m.get? j := by
  simp [get?_insert, h]

@[simp] theorem get?_erase_self (m : Keyed α) (k : String) : (m.erase k).get? k = none := by
  simp [get?_erase]

theorem get?_erase_of_ne {m : Keyed α} {k j : String} (h : j ≠ k) :
    (m.erase k).get? j = m.get? j := by
  simp [get?_erase, h]

theorem mem_entries_iff {k : String} {v : α} : ∀ {es : List (String × α)}, Increasing es →
    ((k, v) ∈ es ↔ lookUp? k es = some v)
  | [], _ => by simp [lookUp?]
  | (k', v') :: rest, h => by
      obtain ⟨hk, hrest⟩ := List.pairwise_cons.1 h
      rw [List.mem_cons, mem_entries_iff hrest, lookUp?]
      by_cases he : k = k'
      · subst he
        have hnot : lookUp? k rest ≠ some v := fun hv =>
          String.lt_irrefl k (hk (k, v) ((mem_entries_iff hrest).2 hv))
        simp [hnot, eq_comm]
      · simp [he]

/-- **Maps that bind every key to the same are the same.** -/
theorem ext_get? {a b : Keyed α} (h : ∀ k, a.get? k = b.get? k) : a = b := by
  have hnodup : ∀ m : Keyed α, m.entries.Nodup := fun m => .of_map _ m.nodup_keys
  have hmem : ∀ e, e ∈ a.entries ↔ e ∈ b.entries := fun ⟨k, v⟩ => by
    have hk : lookUp? k a.entries = lookUp? k b.entries := h k
    rw [mem_entries_iff a.sorted, mem_entries_iff b.sorted, hk]
  have hperm := (List.perm_ext_iff_of_nodup (hnodup a) (hnodup b)).2 hmem
  refine ext (hperm.eq_of_pairwise (fun x y _ _ hxy hyx => ?_) a.sorted b.sorted)
  exact absurd (String.lt_trans hxy hyx) (String.lt_irrefl _)

/-! ## The keys -/

/-- The keys are listed in increasing order. -/
theorem pairwise_keys (m : Keyed α) : m.keys.Pairwise (· < ·) := List.pairwise_map.2 m.sorted

theorem mem_keys_insert {m : Keyed α} {k j : String} {v : α} :
    j ∈ (m.insert k v).keys ↔ j = k ∨ j ∈ m.keys := by
  simp only [mem_keys, get?_insert]
  by_cases h : j = k <;> simp [h]

/-- **The keys of a map of entries** are those of the entries. -/
theorem mem_keys_ofList {es : List (String × α)} {k : String} :
    k ∈ (ofList es).keys ↔ k ∈ es.map (·.1) := by
  have hfold : ∀ (es : List (String × α)) (m : Keyed α),
      k ∈ (es.foldl (fun m e => m.insert e.1 e.2) m).keys ↔ k ∈ m.keys ∨ k ∈ es.map (·.1) := by
    intro es
    induction es with
    | nil => simp
    | cons e rest ih =>
      intro m
      rw [List.foldl_cons, ih, mem_keys_insert, List.map_cons, List.mem_cons]
      tauto
  rw [ofList, hfold]
  simp [keys, empty]

/-! ## Maps of the values -/

variable {β : Type}

theorem get?_map (m : Keyed α) (f : α → β) (k : String) : (m.map f).get? k = (m.get? k).map f := by
  change lookUp? k (m.entries.map fun e => (e.1, f e.2)) = (lookUp? k m.entries).map f
  induction m.entries with
  | nil => rfl
  | cons e rest ih =>
    obtain ⟨k', v⟩ := e
    by_cases hk : k = k' <;> simp [lookUp?, hk, ih]

theorem map_insert (m : Keyed α) (f : α → β) (k : String) (v : α) :
    (m.insert k v).map f = (m.map f).insert k (f v) := by
  refine ext_get? fun j => ?_
  rw [get?_map, get?_insert, get?_insert, get?_map]
  split <;> rfl

theorem map_erase (m : Keyed α) (f : α → β) (k : String) :
    (m.erase k).map f = (m.map f).erase k := by
  refine ext_get? fun j => ?_
  rw [get?_map, get?_erase, get?_erase, get?_map]
  split <;> rfl

end RegistryFleet.Keyed
