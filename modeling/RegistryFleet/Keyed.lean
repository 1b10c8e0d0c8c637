/-!
# Keyed — finite maps from text, kept in byte order of their keys

Annotations, projects of a backend, permission principals and manifest files are maps whose order
of listing is part of every answer. `Keyed` keeps its entries strictly increasing by key, so equal
maps are equal values and a listing needs no sorting.

* `get?_insert`, `get?_erase` — what an operation does to the look-up.
* `Keyed.sorted` — the listing is strictly increasing.
-/

namespace RegistryFleet

/-- Entries whose keys increase strictly. -/
def Increasing {α : Type} (entries : List (String × α)) : Prop :=
  entries.Pairwise fun a b => a.1 < b.1

/-- **A finite map from text**, listed in byte order of its keys. -/
structure Keyed (α : Type) where
  /-- The entries, in increasing order of their keys. -/
  entries : List (String × α)
  /-- The order is strict, so no key occurs twice. -/
  sorted : Increasing entries

namespace Keyed

variable {α : Type}

theorem ext {a b : Keyed α} (h : a.entries = b.entries) : a = b := by
  cases a; cases b; cases h; rfl

instance [DecidableEq α] : DecidableEq (Keyed α) := fun a b =>
  decidable_of_iff (a.entries = b.entries) ⟨ext, fun h => h ▸ rfl⟩

/-- The map without entries. -/
def empty : Keyed α := ⟨[], List.Pairwise.nil⟩

instance : Inhabited (Keyed α) := ⟨empty⟩

/-- Puts an entry in its place, in front of the first larger key. -/
def insertEntry (k : String) (v : α) : List (String × α) → List (String × α)
  | [] => [(k, v)]
  | (k', v') :: rest =>
    if k < k' then (k, v) :: (k', v') :: rest
    else if k = k' then (k, v) :: rest
    else (k', v') :: insertEntry k v rest

theorem mem_insertEntry {k : String} {v : α} : ∀ {es : List (String × α)} {e : String × α},
    e ∈ insertEntry k v es → e = (k, v) ∨ e ∈ es
  | [], e, h => by simpa [insertEntry] using h
  | (k', v') :: rest, e, h => by
      unfold insertEntry at h
      split at h
      · simpa using h
      · split at h
        · rcases List.mem_cons.1 h with h | h
          · exact Or.inl h
          · exact Or.inr (List.mem_cons_of_mem _ h)
        · rcases List.mem_cons.1 h with h | h
          · exact Or.inr (by simp [h])
          · rcases mem_insertEntry h with h | h
            · exact Or.inl h
            · exact Or.inr (List.mem_cons_of_mem _ h)

theorem increasing_insertEntry (k : String) (v : α) : ∀ {es : List (String × α)},
    Increasing es → Increasing (insertEntry k v es)
  | [], _ => List.pairwise_singleton _ _
  | (k', v') :: rest, h => by
      obtain ⟨hk, hrest⟩ := List.pairwise_cons.1 h
      unfold insertEntry
      split
      · rename_i hlt
        refine List.pairwise_cons.2 ⟨fun e he => ?_, h⟩
        rcases List.mem_cons.1 he with rfl | he
        · exact hlt
        · exact String.lt_trans hlt (hk e he)
      · split
        · rename_i heq
          subst heq
          exact List.pairwise_cons.2 ⟨hk, hrest⟩
        · rename_i hlt hne
          have hgt : k' < k := by
            rcases Decidable.em (k' < k) with h' | h'
            · exact h'
            · exact absurd (String.le_antisymm (String.not_lt.1 h') (String.not_lt.1 hlt)) hne
          refine List.pairwise_cons.2 ⟨fun e he => ?_, increasing_insertEntry k v hrest⟩
          rcases mem_insertEntry he with rfl | he
          · exact hgt
          · exact hk e he

/-- The map with `k` bound to `v`; an earlier binding of `k` is replaced. -/
def insert (m : Keyed α) (k : String) (v : α) : Keyed α :=
  ⟨insertEntry k v m.entries, increasing_insertEntry k v m.sorted⟩

/-- The map without a binding of `k`. -/
def erase (m : Keyed α) (k : String) : Keyed α :=
  ⟨m.entries.filter fun e => e.1 != k, List.Pairwise.filter _ m.sorted⟩

/-- The map of the entries, the last binding of a key being the one that holds. -/
def ofList (es : List (String × α)) : Keyed α :=
  es.foldl (fun m e => m.insert e.1 e.2) empty

/-- The value of the first entry of `k`. -/
def lookUp? (k : String) : List (String × α) → Option α
  | [] => none
  | (k', v) :: rest => if k = k' then some v else lookUp? k rest

/-- What `k` is bound to. -/
def get? (m : Keyed α) (k : String) : Option α :=
  lookUp? k m.entries

/-- Is `k` bound? -/
def contains (m : Keyed α) (k : String) : Bool :=
  (m.get? k).isSome

/-- The bound keys, in increasing order. -/
def keys (m : Keyed α) : List String :=
  m.entries.map (·.1)

/-- Applies `f` to the value bound to `k`, if there is one. -/
def modify (m : Keyed α) (k : String) (f : α → α) : Keyed α :=
  match m.get? k with
  | some v => m.insert k (f v)
  | none => m

/-- Applies `f` to every value. -/
def map {β : Type} (m : Keyed α) (f : α → β) : Keyed β :=
  ⟨m.entries.map fun e => (e.1, f e.2), by
    have h := m.sorted
    unfold Increasing at h ⊢
    rw [List.pairwise_map]
    exact h⟩

theorem lookUp?_insertEntry (k j : String) (v : α) : ∀ (es : List (String × α)),
    lookUp? j (insertEntry k v es) = if j = k then some v else lookUp? j es
  | [] => by simp [insertEntry, lookUp?]
  | (k', v') :: rest => by
      unfold insertEntry
      split
      · simp [lookUp?]
      · split
        · rename_i heq
          subst heq
          by_cases hj : j = k <;> simp [lookUp?, hj]
        · rename_i hne
          have ih := lookUp?_insertEntry k j v rest
          by_cases hj : j = k
          · simp [lookUp?, hj, hne, hj ▸ ih]
          · simp [lookUp?, hj, ih]

@[simp] theorem get?_empty (k : String) : (empty : Keyed α).get? k = none := rfl

theorem get?_insert (m : Keyed α) (k j : String) (v : α) :
    (m.insert k v).get? j = if j = k then some v else m.get? j :=
  lookUp?_insertEntry k j v m.entries

theorem lookUp?_filter_ne (k j : String) : ∀ (es : List (String × α)),
    lookUp? j (es.filter fun e => e.1 != k) = if j = k then none else lookUp? j es
  | [] => by simp [lookUp?]
  | (k', v') :: rest => by
      have ih := lookUp?_filter_ne k j rest
      by_cases hk : k' = k
      · subst hk
        by_cases hj : j = k' <;> simp_all [lookUp?]
      · by_cases hj : j = k'
        · subst hj; simp [lookUp?, hk]
        · simp [lookUp?, hk, hj, ih]

theorem get?_erase (m : Keyed α) (k j : String) :
    (m.erase k).get? j = if j = k then none else m.get? j :=
  lookUp?_filter_ne k j m.entries

end Keyed

end RegistryFleet
