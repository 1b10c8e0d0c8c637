import RegistryFleet.Proofs.Keyed
import RegistryFleet.Storage.Files

/-!
# Proofs/Storage/Files — a folder is a map from file names

The operations on files take path texts. For the files right below a directory the way down is
always the same, so that such a directory is a map from names to entries.

* `Files.Simple` — a text that names an entry of a directory and nothing else.
* `Files.Folder` — a path text names a directory, which `locate_join` looks names up in.
* `Folder.write`, `Folder.remove` — an operation changes one entry of the map, `Folder.Change`.
-/

namespace RegistryFleet.Files

/-! ## Names and paths -/

/-- **The name of an entry.** -/
structure Simple (name : String) : Prop where
  ne_empty : name ≠ ""
  ne_dot : name ≠ "."
  ne_dots : name ≠ ".."
  no_slash : '/' ∉ name.toList

/-- The pieces of a path text between slashes. -/
def pieces (path : String) : List String := (path.toList.splitOn '/').map String.ofList

theorem namesOf_eq (path : String) : namesOf path = (pieces path).filter (· != "") := rfl

theorem pieces_of_simple {name : String} (h : Simple name) : pieces name = [name] := by
  rw [pieces, List.splitOn_eq_singleton h.no_slash]
  simp

theorem pieces_append_slash (front back : String) :
    pieces (front ++ "/" ++ back) = pieces front ++ pieces back := by
  have hlist : (front ++ "/" ++ back).toList = front.toList ++ '/' :: back.toList := by
    simp [String.toList_append]
  rw [pieces, hlist, List.splitOn_append_cons_self, List.map_append]
  rfl

/-- **The pieces of a name below a directory** — the name comes last, and in front of it stands the
way to the directory. -/
theorem pieces_join (path : String) {name : String} (h : Simple name) :
    ∃ front, pieces (join path name) = front ++ [name]
      ∧ front.filter (· != "") = namesOf path := by
  have hslash : name.startsWith "/" = false := by
    rw [String.startsWith_string_eq_false_iff]
    rintro ⟨rest, hrest⟩
    exact h.no_slash (hrest ▸ by simp)
  unfold join
  rw [hslash, Bool.false_or]
  split
  · next he =>
    have hpath : path = "" := by simpa using he
    exact ⟨[], pieces_of_simple h, by rw [hpath]; rfl⟩
  · split
    · next hend =>
      obtain ⟨front, hfront⟩ := String.Slice.endsWith_string_iff.1 hend
      rw [String.copy_toSlice] at hfront
      have hpath : path = String.ofList front ++ "/" ++ "" := by
        refine String.toList_inj.1 ?_
        rw [← hfront]
        simp [String.toList_append]
      have hjoin : path ++ name = String.ofList front ++ "/" ++ name := by
        rw [hpath, String.append_empty]
      refine ⟨pieces (String.ofList front), ?_, ?_⟩
      · rw [hjoin, pieces_append_slash, pieces_of_simple h]
      · rw [namesOf_eq, hpath, pieces_append_slash, List.filter_append]
        exact (List.append_nil _).symm
    · refine ⟨pieces path, ?_, rfl⟩
      rw [pieces_append_slash, pieces_of_simple h]

theorem namesOf_join {path name : String} (h : Simple name) :
    namesOf (join path name) = namesOf path ++ [name] := by
  obtain ⟨front, hpieces, hfront⟩ := pieces_join path h
  rw [namesOf_eq, hpieces, List.filter_append, hfront]
  simp [h.ne_empty]

theorem endsAsDirectory_join {path name : String} (h : Simple name) :
    endsAsDirectory (join path name) = false := by
  obtain ⟨front, hpieces, -⟩ := pieces_join path h
  have hlast : ((join path name).toList.splitOn '/').getLast?.map String.ofList = some name := by
    rw [← List.getLast?_map]
    exact (congrArg List.getLast? hpieces).trans List.getLast?_concat
  obtain ⟨cs, hcs, rfl⟩ := Option.map_eq_some_iff.1 hlast
  unfold endsAsDirectory
  rw [hcs]
  split
  · next he => exact absurd (Option.some.inj he ▸ rfl) h.ne_empty
  · next he => exact absurd (Option.some.inj he ▸ rfl) h.ne_dot
  · next he => exact absurd (Option.some.inj he ▸ rfl) h.ne_dots
  · rfl

theorem join_ne_empty {path name : String} (h : Simple name) : join path name ≠ "" := by
  obtain ⟨front, hpieces, -⟩ := pieces_join path h
  intro he
  rw [he] at hpieces
  have hname : name ∈ pieces "" := hpieces ▸ List.mem_append_right front List.mem_cons_self
  exact h.ne_empty (List.mem_singleton.1 hname)

/-! ## Keys -/

theorem key_append_cons (name : String) : ∀ here : List String, here ≠ [] →
    key (here ++ [name]) = key here ++ "/" ++ name := by
  intro here h
  rw [key, String.intercalate_append_of_ne_nil h (by simp), String.intercalate_singleton]
  rfl

/-- Entries of one directory with one key are one entry. -/
theorem key_append_inj {here : List String} {a b : String} :
    key (here ++ [a]) = key (here ++ [b]) ↔ a = b := by
  refine ⟨fun h => ?_, fun h => h ▸ rfl⟩
  by_cases hnil : here = []
  · rw [hnil] at h
    simpa [key] using h
  · rw [key_append_cons a here hnil, key_append_cons b here hnil] at h
    simpa using h

theorem at?_append (fs : Files) (here : List String) (name : String) :
    fs.at? (here ++ [name]) = fs.entries.get? (key (here ++ [name])) := by
  cases here <;> rfl

/-! ## The way down -/

theorem descend_append (fs : Files) : ∀ (names here : List String) (name : String),
    fs.descend here (names ++ [name])
      = (fs.descend here names).bind fun below => fs.descend below [name]
  | [], _, _ => rfl
  | n :: rest, here, name => by
      have ih := fun h => descend_append fs rest h name
      rw [List.cons_append, descend, descend]
      cases fs.at? here with
      | none => rfl
      | some entry =>
        cases entry with
        | file content => rfl
        | directory =>
          simp only [ih]
          repeat' split
          all_goals rfl

/-- What stays a directory stays on the way. -/
theorem descend_of_directories {fs fs' : Files}
    (h : ∀ names, fs.at? names = some .directory → fs'.at? names = some .directory) :
    ∀ {names here below : List String}, fs.descend here names = .ok below →
      fs'.descend here names = .ok below
  | [], _, _, hd => hd
  | n :: rest, here, below, hd => by
      rw [descend] at hd ⊢
      cases hat : fs.at? here with
      | none => rw [hat] at hd; cases hd
      | some entry =>
        cases entry with
        | file content => rw [hat] at hd; cases hd
        | directory =>
          rw [hat] at hd
          rw [h here hat]
          have hrest : ∀ there, fs.descend there rest = .ok below →
              fs'.descend there rest = .ok below := fun _ => descend_of_directories h
          simp only at hd ⊢
          repeat' split at hd
          · next h₁ => rw [if_pos h₁]; exact hrest _ hd
          · next h₁ h₂ => rw [if_neg h₁, if_pos h₂]; exact hrest _ hd
          · cases hd
          · next h₁ h₂ h₃ => rw [if_neg h₁, if_neg h₂, if_neg h₃]; exact hrest _ hd

/-! ## Folders -/

/-- **A path text names a directory** — the one at that place. -/
structure Folder (fs : Files) (path : String) (here : List String) : Prop where
  way : fs.descend [] (namesOf path) = .ok here
  directory : fs.at? here = some .directory

/-- What is wrong with the path text of a name below a directory. -/
def fault? (path name : String) : Option FileError :=
  if (join path name).toList.contains '\x00' then some .nulInPath
  else if (join path name).utf8ByteSize > longestPath then some .nameTooLong
  else if name.utf8ByteSize > longestName then some .nameTooLong
  else none

namespace Folder

variable {fs fs' : Files} {path : String} {here : List String} {name : String}

/-- **A folder looks names up.** -/
theorem locate_join (h : fs.Folder path here) (hname : Simple name) :
    fs.locate (join path name)
      = (fault? path name).elim (.ok (here ++ [name], fs.at? (here ++ [name]))) .error := by
  have hway : fs.descend [] (namesOf (join path name))
      = if name.utf8ByteSize > longestName then .error .nameTooLong
        else .ok (here ++ [name]) := by
    rw [namesOf_join hname, descend_append, h.way]
    change fs.descend here [name] = _
    rw [descend, h.directory]
    simp only [if_neg hname.ne_dot, if_neg hname.ne_dots, descend]
  have hempty : (join path name).isEmpty = false := by
    simpa using join_ne_empty hname
  unfold locate fault?
  rw [hway, hempty, endsAsDirectory_join hname]
  by_cases hnul : (join path name).toList.contains '\x00' = true
  · simp only [hnul, if_true]
    rfl
  · by_cases hlong : (join path name).utf8ByteSize > longestPath
    · simp only [hnul, hlong, if_true]
      rfl
    · by_cases hwide : name.utf8ByteSize > longestName
      · simp only [hnul, hlong, hwide, if_true]
        rfl
      · simp only [hnul, hlong, hwide, if_false]
        rfl

/-! ## Operations on a folder -/

/-- **A name can be written** — the path is a good one, and no directory has the name. -/
structure Takes (fs : Files) (path : String) (here : List String) (name : String) : Prop where
  sound : fault? path name = none
  free : fs.at? (here ++ [name]) ≠ some .directory

/-- **A change of one file of a folder**, and of nothing else in the tree. -/
structure Change (path : String) (here : List String) (name : String) (content : Option String)
    (fs fs' : Files) : Prop where
  folder : fs'.Folder path here
  self : fs'.at? (here ++ [name]) = content.map .file
  rest : ∀ k, k ≠ key (here ++ [name]) → fs'.entries.get? k = fs.entries.get? k

theorem Change.others {content : Option String} (h : Change path here name content fs fs')
    (other : String) (hne : other ≠ name) :
    fs'.at? (here ++ [other]) = fs.at? (here ++ [other]) := by
  rw [at?_append, at?_append]
  exact h.rest _ fun he => hne (key_append_inj.1 he)

theorem Change.takes {content : Option String} (h : Change path here name content fs fs')
    {other : String} (ht : Takes fs path here other) : Takes fs' path here other where
  sound := ht.sound
  free := by
    rcases eq_or_ne other name with rfl | hne
    · rw [h.self]
      cases content <;> simp
    · rw [h.others other hne]
      exact ht.free

theorem read_eq (h : fs.Folder path here) (hname : Simple name) (hsound : fault? path name = none) :
    fs.read (join path name)
      = match fs.at? (here ++ [name]) with
        | none => .error .absent
        | some .directory => .error .isDirectory
        | some (.file content) => .ok content := by
  rw [read, h.locate_join hname, hsound]
  cases fs.at? (here ++ [name]) with
  | none => rfl
  | some entry => cases entry <;> rfl

/-- A file of a folder is read just if it is there with that content. -/
theorem read_eq_ok_iff (h : fs.Folder path here) (hname : Simple name)
    (hsound : fault? path name = none) {content : String} :
    fs.read (join path name) = .ok content ↔ fs.at? (here ++ [name]) = some (.file content) := by
  rw [h.read_eq hname hsound]
  cases fs.at? (here ++ [name]) with
  | none => simp
  | some entry => cases entry <;> simp

/-- The folder stays where it is when an entry that is no directory changes. -/
theorem congr (h : fs.Folder path here)
    (hat : ∀ names, fs.at? names = some .directory → fs'.at? names = some .directory) :
    fs'.Folder path here :=
  ⟨descend_of_directories hat h.way, hat here h.directory⟩

theorem at?_congr_of_key {fs' : Files} {place : List String} (hplace : place ≠ [])
    (hfree : fs.at? place ≠ some .directory)
    (hothers : ∀ k, k ≠ key place → fs'.entries.get? k = fs.entries.get? k) (names : List String)
    (hat : fs.at? names = some .directory) : fs'.at? names = some .directory := by
  cases names with
  | nil => rfl
  | cons n rest =>
    have hkey : key (n :: rest) ≠ key place := fun he => hfree <| by
      obtain ⟨m, rest', rfl⟩ := List.exists_cons_of_ne_nil hplace
      change fs.entries.get? (key (m :: rest')) = _
      rw [← he]
      exact hat
    exact (hothers _ hkey).trans hat

/-- A change of the entry of one name, below a folder. -/
theorem change_of_key (h : fs.Folder path here) (hfree : fs.at? (here ++ [name]) ≠ some .directory)
    {content : Option String}
    (hself : fs'.entries.get? (key (here ++ [name])) = content.map .file)
    (hothers : ∀ k, k ≠ key (here ++ [name]) → fs'.entries.get? k = fs.entries.get? k) :
    Change path here name content fs fs' where
  folder := h.congr (at?_congr_of_key (by simp) hfree hothers)
  self := by rw [at?_append, hself]
  rest := hothers

/-- **Writing** a file of a folder. -/
theorem write (h : fs.Folder path here) (hname : Simple name) (ht : Takes fs path here name)
    (content : String) : ∃ fs', fs.write (join path name) content = .ok fs'
      ∧ Change path here name (some content) fs fs' := by
  refine ⟨fs.put (here ++ [name]) (.file content), ?_,
    h.change_of_key ht.free (Keyed.get?_insert_self _ _ _) fun k hk => Keyed.get?_insert_of_ne hk⟩
  rw [Files.write, h.locate_join hname, ht.sound, endsAsDirectory_join hname]
  cases hat : fs.at? (here ++ [name]) with
  | none => rfl
  | some entry =>
    cases entry with
    | file => rfl
    | directory => exact absurd hat ht.free

/-- **Removing** a file of a folder. -/
theorem remove (h : fs.Folder path here) (hname : Simple name) (ht : Takes fs path here name) :
    (fs.at? (here ++ [name]) = none ∧ fs.remove (join path name) = .error .absent)
      ∨ ∃ fs', fs.remove (join path name) = .ok fs' ∧ Change path here name none fs fs' := by
  rw [Files.remove, h.locate_join hname, ht.sound]
  cases hat : fs.at? (here ++ [name]) with
  | none => exact .inl ⟨rfl, rfl⟩
  | some entry =>
    cases entry with
    | directory => exact absurd hat ht.free
    | file content =>
      exact .inr ⟨⟨fs.entries.erase (key (here ++ [name]))⟩, rfl, h.change_of_key ht.free
        (Keyed.get?_erase_self _ _) fun k hk => Keyed.get?_erase_of_ne hk⟩

/-- Where a file has been written, its name can be written. -/
theorem takes_of_write (h : fs.Folder path here) (hname : Simple name) {content : String}
    (hwrite : fs.write (join path name) content = .ok fs') : Takes fs path here name := by
  rw [Files.write, h.locate_join hname] at hwrite
  cases hfault : fault? path name with
  | some e => rw [hfault] at hwrite; cases hwrite
  | none =>
    rw [hfault] at hwrite
    refine ⟨hfault, fun hat => ?_⟩
    rw [hat] at hwrite
    cases hwrite

/-- A path text that names a place leads there. -/
theorem descend_of_locate {place : List String × Option Entry} (h : fs.locate path = .ok place) :
    ∃ names, fs.descend [] (namesOf path) = .ok names := by
  unfold locate at h
  cases hdescend : fs.descend [] (namesOf path) with
  | ok names => exact ⟨names, rfl⟩
  | error e =>
    rw [hdescend] at h
    exfalso
    by_cases hnul : path.toList.contains '\x00' = true
    · simp only [hnul, if_true] at h
      cases h
    · by_cases hempty : path.isEmpty = true
      · simp only [hnul, hempty, if_true] at h
        cases h
      · by_cases hlong : path.utf8ByteSize > longestPath
        · simp only [hnul, hempty, hlong, if_true] at h
          cases h
        · simp only [hnul, hempty, hlong, if_false] at h
          cases h

/-- The way to a name leads through a directory. -/
theorem of_descend {there : List String}
    (h : fs.descend [] (namesOf path ++ [name]) = .ok there) :
    ∃ here, fs.Folder path here := by
  rw [descend_append] at h
  cases hhere : fs.descend [] (namesOf path) with
  | error e => rw [hhere] at h; cases h
  | ok here =>
    rw [hhere] at h
    change fs.descend here [name] = _ at h
    rw [descend] at h
    cases hat : fs.at? here with
    | none => rw [hat] at h; cases h
    | some entry =>
      cases entry with
      | file content => rw [hat] at h; cases h
      | directory => exact ⟨here, hhere, hat⟩

/-- Where a file has been written, there is a folder. -/
theorem of_write (hname : Simple name) {content : String}
    (hwrite : fs.write (join path name) content = .ok fs') : ∃ here, fs.Folder path here := by
  cases hlocate : fs.locate (join path name) with
  | error e => rw [Files.write, hlocate] at hwrite; cases hwrite
  | ok place =>
    obtain ⟨there, hway⟩ := descend_of_locate hlocate
    rw [namesOf_join hname] at hway
    exact of_descend hway

end Folder

end RegistryFleet.Files
