import RegistryFleet.Data
import RegistryFleet.Proofs.Json.ReadBack

/-!
# Proofs/Json/Document — data as the document that it is written as

Data is a tree as a document is, and what is written of it on one line is read as that tree. Reading
goes by fuel, a unit for each level and each item, and the text is longer than either, so the length
is fuel enough; the induction is on the fuel, for data, items and fields at once.

* `Data.node` — the tree.
* `Json.ofText_compact` — what is written on one line is read again.
-/

namespace RegistryFleet

/-! ## Trees -/

namespace Data

mutual

/-- **Data as the document** that it is written as. -/
def node : Data → Json.Node
  | .null => .null
  | .bool b => .bool b
  | .int n => .int n
  | .text s => .text s
  | .list items => .list (nodes items)
  | .record fs => .record (fieldNodes fs) false

/-- Items as documents. -/
def nodes : List Data → List Json.Node
  | [] => []
  | d :: rest => d.node :: nodes rest

/-- Fields as documents. -/
def fieldNodes : List (String × Data) → List (String × Json.Node)
  | [] => []
  | (k, d) :: rest => (k, d.node) :: fieldNodes rest

end

theorem nodes_eq_map : ∀ items : List Data, nodes items = items.map node
  | [] => rfl
  | d :: rest => congrArg (d.node :: ·) (nodes_eq_map rest)

theorem fieldNodes_eq_map : ∀ fs : List (String × Data),
    fieldNodes fs = fs.map fun f => (f.1, f.2.node)
  | [] => rfl
  | (k, d) :: rest => congrArg ((k, d.node) :: ·) (fieldNodes_eq_map rest)

theorem node_texts (ss : List String) : (texts ss).node = .list (ss.map .text) := by
  rw [texts, node, nodes_eq_map, List.map_map]
  rfl

mutual

/-- Data without numbers. -/
def Numberless : Data → Prop
  | .int _ => False
  | .list items => NumberlessItems items
  | .record fs => NumberlessFields fs
  | _ => True

/-- Items without numbers. -/
def NumberlessItems : List Data → Prop
  | [] => True
  | d :: rest => d.Numberless ∧ NumberlessItems rest

/-- Fields without numbers. -/
def NumberlessFields : List (String × Data) → Prop
  | [] => True
  | (_, d) :: rest => d.Numberless ∧ NumberlessFields rest

end

theorem numberlessItems_iff : ∀ {items : List Data},
    NumberlessItems items ↔ ∀ d ∈ items, d.Numberless
  | [] => ⟨fun _ => nofun, fun _ => trivial⟩
  | d :: rest => by rw [NumberlessItems, List.forall_mem_cons, numberlessItems_iff]

theorem numberlessFields_iff : ∀ {fs : List (String × Data)},
    NumberlessFields fs ↔ ∀ f ∈ fs, f.2.Numberless
  | [] => ⟨fun _ => nofun, fun _ => trivial⟩
  | (k, d) :: rest => by rw [NumberlessFields, List.forall_mem_cons, numberlessFields_iff]

theorem numberless_texts (ss : List String) : (texts ss).Numberless := by
  rw [texts, Numberless, numberlessItems_iff]
  rintro d hd
  obtain ⟨s, -, rfl⟩ := List.mem_map.1 hd
  trivial

end Data

/-! ## Reading back -/

namespace Json

open Data

theorem compactItems_cons (d d' : Data) (rest : List Data) :
    (compactItems (d :: d' :: rest)).toList
      = (compact d).toList ++ ',' :: (compactItems (d' :: rest)).toList := by
  simp [compactItems, String.toList_append]

theorem compactFields_cons (k : String) (d : Data) (f : String × Data)
    (rest : List (String × Data)) : (compactFields ((k, d) :: f :: rest)).toList
      = (quote k).toList
        ++ ':' :: ((compact d).toList ++ ',' :: (compactFields (f :: rest)).toList) := by
  simp [compactFields, String.toList_append]

/-- Data begins with no blank and no closing bracket. -/
theorem exists_compact : ∀ d : Data, d.Numberless →
    ∃ c cs, (compact d).toList = c :: cs ∧ isSpace c = false ∧ c ≠ ']'
  | .null, _ | .bool true, _ | .bool false, _ => ⟨_, _, rfl, rfl, by decide⟩
  | .int _, h => h.elim
  | .text s, _ => ⟨_, _, (List.append_nil _).symm.trans (toList_quote s []), rfl, by decide⟩
  | .list items, _ | .record fs, _ => by
      rw [compact, String.toList_append, String.toList_append]
      exact ⟨_, _, rfl, rfl, by decide⟩

theorem exists_compactItems (d : Data) : ∀ ds : List Data, NumberlessItems (d :: ds) →
    ∃ c cs, (compactItems (d :: ds)).toList = c :: cs ∧ isSpace c = false ∧ c ≠ ']'
  | [], h => exists_compact d h.1
  | d' :: ds, h => by
      obtain ⟨c, cs, hc, hspace, hclose⟩ := exists_compact d h.1
      exact ⟨c, _, by rw [compactItems_cons, hc]; rfl, hspace, hclose⟩

theorem exists_compactFields (k : String) (d : Data) : ∀ fs : List (String × Data),
    ∃ cs, (compactFields ((k, d) :: fs)).toList = '"' :: cs
  | [] => ⟨_, by simp only [compactFields, String.toList_append, toList_quote]; rfl⟩
  | f :: fs => ⟨_, by rw [compactFields_cons, toList_quote]⟩

/-- **What is read with so much fuel**: all data, items and fields that are short enough. -/
structure ReadsBack (fuel : Nat) : Prop where
  value : ∀ d rest, d.Numberless → (compact d).toList.length ≤ fuel →
    value (fuel + 1) ((compact d).toList ++ rest) = (d.node, some rest)
  items : ∀ ds rest, ds ≠ [] → NumberlessItems ds → (compactItems ds).toList.length < fuel →
    items (fuel + 1) ((compactItems ds).toList ++ ']' :: rest) = (nodes ds, some rest)
  members : ∀ fs rest, fs ≠ [] → NumberlessFields fs → (compactFields fs).toList.length < fuel →
    members (fuel + 1) ((compactFields fs).toList ++ '\x7d' :: rest)
      = (fieldNodes fs, false, some rest)

variable {fuel : Nat}

namespace ReadsBack

theorem list (h : ReadsBack fuel) (rest : List Char) : ∀ {ds : List Data}, NumberlessItems ds →
    (compactItems ds).toList.length < fuel →
    Json.value (fuel + 2) ((compact (.list ds)).toList ++ rest)
      = ((Data.list ds).node, some rest)
  | [], _, _ => rfl
  | d :: ds, hds, hfuel => by
      obtain ⟨c, cs, hc, hspace, hclose⟩ := exists_compactItems d ds hds
      have htext : (compact (.list (d :: ds))).toList ++ rest
          = '[' :: ((compactItems (d :: ds)).toList ++ ']' :: rest) := by
        simp [compact, String.toList_append]
      rw [htext, Json.value, skipSpace_of_head rfl]
      have hitems := h.items (d :: ds) rest (List.cons_ne_nil _ _) hds hfuel
      rw [hc] at hitems ⊢
      simp only [List.cons_append, skipSpace_of_head hspace] at hitems ⊢
      split
      · next he => exact absurd (List.cons.inj he).1 hclose
      · rw [hitems]
        rfl

theorem record (h : ReadsBack fuel) (rest : List Char) : ∀ {fs : List (String × Data)},
    NumberlessFields fs → (compactFields fs).toList.length < fuel →
    Json.value (fuel + 2) ((compact (.record fs)).toList ++ rest)
      = ((Data.record fs).node, some rest)
  | [], _, _ => rfl
  | (k, d) :: fs, hfs, hfuel => by
      obtain ⟨cs, hcs⟩ := exists_compactFields k d fs
      have htext : (compact (.record ((k, d) :: fs))).toList ++ rest
          = '\x7b' :: ((compactFields ((k, d) :: fs)).toList ++ '\x7d' :: rest) := by
        simp [compact, String.toList_append]
      rw [htext, Json.value, skipSpace_of_head rfl]
      have hmembers := h.members ((k, d) :: fs) rest (List.cons_ne_nil _ _) hfs hfuel
      rw [hcs] at hmembers ⊢
      simp only [List.cons_append, skipSpace_of_head (show isSpace '"' = false from rfl)]
        at hmembers ⊢
      split
      · next he => exact absurd (List.cons.inj he).1 (by decide)
      · rw [hmembers]
        rfl

theorem items_succ (h : ReadsBack fuel) (rest : List Char) : ∀ {ds : List Data}, ds ≠ [] →
    NumberlessItems ds → (compactItems ds).toList.length < fuel + 1 →
    Json.items (fuel + 2) ((compactItems ds).toList ++ ']' :: rest) = (nodes ds, some rest)
  | [d], _, hd, hfuel => by
      rw [show compactItems [d] = compact d from rfl] at hfuel ⊢
      rw [Json.items, h.value d _ hd.1 (Nat.le_of_lt_succ hfuel)]
      simp only [skipSpace_of_head (show isSpace ']' = false from rfl)]
      rfl
  | d :: d' :: ds, _, hd, hfuel => by
      rw [compactItems_cons] at hfuel ⊢
      simp only [List.length_append, List.length_cons] at hfuel
      rw [List.append_assoc, List.cons_append, Json.items, h.value d _ hd.1 (by omega)]
      simp only [skipSpace_of_head (show isSpace ',' = false from rfl)]
      rw [h.items (d' :: ds) rest (List.cons_ne_nil _ _) hd.2 (by omega)]
      rfl

theorem members_last (h : ReadsBack fuel) (rest : List Char) {k : String} {d : Data}
    (hd : d.Numberless) (hfuel : (compactFields [(k, d)]).toList.length < fuel + 1) :
    Json.members (fuel + 2) ((compactFields [(k, d)]).toList ++ '\x7d' :: rest)
      = ([(k, d.node)], false, some rest) := by
  have htext : (compactFields [(k, d)]).toList = (quote k).toList ++ ':' :: (compact d).toList := by
    simp [compactFields, String.toList_append]
  rw [htext] at hfuel ⊢
  simp only [List.length_append, List.length_cons] at hfuel
  rw [List.append_assoc, toList_quote, Json.members, skipSpace_of_head rfl]
  simp only [string?_quoted, String.ofList_toList, List.cons_append]
  rw [skipSpace_of_head rfl]
  simp only [h.value d _ hd (by omega)]
  simp only [skipSpace_of_head (show isSpace '\x7d' = false from rfl)]

theorem members_next (h : ReadsBack fuel) (rest : List Char) {k : String} {d : Data}
    {f : String × Data} {fs : List (String × Data)} (hd : d.Numberless)
    (hfs : NumberlessFields (f :: fs))
    (hfuel : (compactFields ((k, d) :: f :: fs)).toList.length < fuel + 1) :
    Json.members (fuel + 2) ((compactFields ((k, d) :: f :: fs)).toList ++ '\x7d' :: rest)
      = ((k, d.node) :: fieldNodes (f :: fs), false, some rest) := by
  rw [compactFields_cons] at hfuel ⊢
  simp only [List.length_append, List.length_cons] at hfuel
  rw [List.append_assoc, toList_quote, Json.members, skipSpace_of_head rfl]
  simp only [string?_quoted, String.ofList_toList, List.cons_append, List.append_assoc]
  rw [skipSpace_of_head rfl]
  simp only [h.value d _ hd (by omega)]
  rw [skipSpace_of_head rfl]
  simp only [h.members (f :: fs) rest (List.cons_ne_nil _ _) hfs (by omega)]

theorem members_succ (h : ReadsBack fuel) (rest : List Char) {fs : List (String × Data)}
    (hne : fs ≠ []) (hfs : NumberlessFields fs)
    (hfuel : (compactFields fs).toList.length < fuel + 1) :
    Json.members (fuel + 2) ((compactFields fs).toList ++ '\x7d' :: rest)
      = (fieldNodes fs, false, some rest) := by
  rcases fs with _ | ⟨⟨k, d⟩, _ | ⟨f, fs⟩⟩
  · exact absurd rfl hne
  · exact h.members_last rest hfs.1 hfuel
  · exact h.members_next rest hfs.1 hfs.2 hfuel

theorem value_succ (h : ReadsBack fuel) (rest : List Char) {d : Data} (hd : d.Numberless)
    (hfuel : (compact d).toList.length ≤ fuel + 1) :
    Json.value (fuel + 2) ((compact d).toList ++ rest) = (d.node, some rest) := by
  rcases d with _ | b | _ | s | ds | fs
  · rfl
  · rcases b with _ | _ <;> rfl
  · exact hd.elim
  · exact value_quote _ s rest
  · refine h.list rest hd ?_
    have hlength : (compact (.list ds)).toList.length = (compactItems ds).toList.length + 2 := by
      simp [compact, String.toList_append]
    omega
  · refine h.record rest hd ?_
    have hlength : (compact (.record fs)).toList.length
        = (compactFields fs).toList.length + 2 := by
      simp [compact, String.toList_append]
    omega

end ReadsBack

/-- **Data is read back**, if the fuel is enough for its length. -/
theorem readsBack : ∀ fuel, ReadsBack fuel
  | 0 => by
      refine ⟨fun d rest hd hfuel => ?_, fun _ _ _ _ h => absurd h (Nat.not_lt_zero _),
        fun _ _ _ _ h => absurd h (Nat.not_lt_zero _)⟩
      obtain ⟨c, cs, hc, -⟩ := exists_compact d hd
      rw [hc] at hfuel
      cases hfuel
  | fuel + 1 =>
      have h := readsBack fuel
      ⟨fun _ rest => h.value_succ rest, fun _ rest => h.items_succ rest,
        fun _ rest => h.members_succ rest⟩

/-- **What is written on one line is read again.** -/
theorem ofText_compact {d : Data} (hd : d.Numberless) : ofText (compact d) = (d.node, true) := by
  have hread := (readsBack (2 * (compact d).length + 1)).value d [] hd
    (by rw [String.length_toList]; omega)
  rw [List.append_nil] at hread
  exact ofText_of_value hread

end Json

end RegistryFleet
