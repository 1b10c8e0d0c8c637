import RegistryFleet.Credential.Directory
import RegistryFleet.Proofs.Storage.Files

/-!
# Proofs/Credential/Directory — what a directory of credentials stores

The file name of a key begins with its registry and its project, each up to an underscore, and ends
with its member. Where the first two are free of underscores, the name belongs to that key alone.

* `CredentialKey.Proper` — a key whose file is one of the directory, and of no other such key.
* `CredentialDirectory.Change` — what an operation on the credential of one key leaves alone.
-/

namespace RegistryFleet

open Files (Folder Simple fault?)

namespace CredentialKey

/-! ## File names -/

/-- **A key with a file of its own.** -/
structure Proper (k : CredentialKey) : Prop where
  registry : '_' ∉ k.registry.toList
  project : '_' ∉ k.project.toList
  no_slash : '/' ∉ k.fileName.toList

theorem toList_fileName (k : CredentialKey) : k.fileName.toList
    = k.registry.toList
      ++ '_' :: (k.project.toList ++ '_' :: (k.member.toList ++ "_creds.yaml".toList)) := by
  have hmark : "_".toList = ['_'] := by decide
  unfold fileName
  simp only [String.toList_append, hmark, List.append_assoc, List.cons_append, List.nil_append]

theorem length_fileName (k : CredentialKey) : 2 < k.fileName.toList.length := by
  have hend : "_creds.yaml".toList.length = 11 := by decide
  rw [toList_fileName]
  simp only [List.length_append, List.length_cons, hend]
  omega

namespace Proper

variable {k k' : CredentialKey}

theorem simple (hk : k.Proper) : Simple k.fileName where
  ne_empty h := absurd (h ▸ length_fileName k) (by decide)
  ne_dot h := absurd (h ▸ length_fileName k) (by decide)
  ne_dots h := absurd (h ▸ length_fileName k) (by decide)
  no_slash := hk.no_slash

/-- **Proper keys of one file are one key.** -/
theorem fileName_inj (hk : k.Proper) (hk' : k'.Proper) : k.fileName = k'.fileName ↔ k = k' := by
  refine ⟨fun h => ?_, fun h => h ▸ rfl⟩
  have hlist := congrArg (Text.cutAt? '_') (congrArg String.toList h)
  rw [toList_fileName, toList_fileName, Text.cutAt?_append _ hk.registry,
    Text.cutAt?_append _ hk'.registry] at hlist
  obtain ⟨hregistry, hback⟩ := Prod.mk.inj (Option.some.inj hlist)
  have hrest := congrArg (Text.cutAt? '_') hback
  rw [Text.cutAt?_append _ hk.project, Text.cutAt?_append _ hk'.project] at hrest
  obtain ⟨hproject, hend⟩ := Prod.mk.inj (Option.some.inj hrest)
  have hmember := List.append_cancel_right hend
  cases k
  cases k'
  simp only [mk.injEq]
  exact ⟨String.toList_inj.1 hregistry, String.toList_inj.1 hproject, String.toList_inj.1 hmember⟩

end Proper

end CredentialKey

namespace CredentialDirectory

variable {d : CredentialDirectory} {here : List String} {files files' : Files}
  {key other : CredentialKey}

/-! ## What is stored -/

/-- **The credential of a key is stored.** -/
def Stores (d : CredentialDirectory) (files : Files) (key : CredentialKey) : Prop :=
  ∃ content, files.read (d.pathOf key) = .ok content

/-- The directory is there, and what it holds are files. -/
structure Ready (d : CredentialDirectory) (here : List String) (files : Files) : Prop where
  folder : files.Folder d.path here
  plain : ∀ name, files.at? (here ++ [name]) ≠ some .directory

/-- **A key whose credential can be stored.** -/
structure Takes (d : CredentialDirectory) (key : CredentialKey) : Prop where
  proper : key.Proper
  sound : fault? d.path key.fileName = none

/-- A credential is stored just if its path is a good one and its file is there. -/
theorem stores_iff (h : d.Ready here files) (hkey : key.Proper) : d.Stores files key
    ↔ fault? d.path key.fileName = none ∧ files.at? (here ++ [key.fileName]) ≠ none := by
  by_cases hsound : fault? d.path key.fileName = none
  · simp only [Stores, pathOf, h.folder.read_eq_ok_iff hkey.simple hsound, hsound, true_and]
    have hplain := h.plain key.fileName
    cases hat : files.at? (here ++ [key.fileName]) with
    | none => simp
    | some entry =>
      cases entry with
      | file content => simp
      | directory => exact absurd hat hplain
  · refine ⟨fun ⟨content, hread⟩ => ?_, fun hat => absurd hat.1 hsound⟩
    obtain ⟨e, he⟩ := Option.ne_none_iff_exists'.1 hsound
    rw [Files.read, pathOf, h.folder.locate_join hkey.simple, he] at hread
    cases hread

/-- Nothing is stored in an empty directory. -/
theorem not_stores_of_empty (h : files.Folder d.path here)
    (hempty : ∀ name, files.at? (here ++ [name]) = none) (hkey : key.Proper) :
    ¬ d.Stores files key := fun hstores =>
  ((stores_iff ⟨h, fun name => by simp [hempty name]⟩ hkey).1 hstores).2 (hempty _)

/-! ## Operations -/

/-- **A change of the credential of one key**, which is stored afterwards or not. -/
structure Change (d : CredentialDirectory) (here : List String) (key : CredentialKey)
    (stored : Prop) (files files' : Files) : Prop where
  ready : d.Ready here files'
  self : d.Stores files' key ↔ stored
  others : ∀ other, other.Proper → other ≠ key → (d.Stores files' other ↔ d.Stores files other)

/-- A change of a file is a change of the credential that it holds. -/
theorem change_of_file (h : d.Ready here files) (hkey : d.Takes key) {content : Option String}
    (hchange : Folder.Change d.path here key.fileName content files files') :
    d.Change here key (content ≠ none) files files' := by
  have hready : d.Ready here files' := by
    refine ⟨hchange.folder, fun name => ?_⟩
    rcases eq_or_ne name key.fileName with rfl | hne
    · rw [hchange.self]
      cases content <;> simp
    · rw [hchange.others name hne]
      exact h.plain name
  refine ⟨hready, ?_, fun other hother hne => ?_⟩
  · rw [stores_iff hready hkey.proper, hchange.self]
    simp [hkey.sound]
  · have hfile : other.fileName ≠ key.fileName := fun he =>
      hne ((hother.fileName_inj hkey.proper).1 he)
    rw [stores_iff hready hother, stores_iff h hother, hchange.others _ hfile]

/-- **Storing** a credential. -/
theorem persist_ok (h : d.Ready here files) (hkey : d.Takes key) (endpoint : String)
    (credentials : Credentials) : ∃ files', d.persist key endpoint credentials files = .ok files'
      ∧ d.Change here key True files files' := by
  obtain ⟨files', hwrite, hchange⟩ := h.folder.write hkey.proper.simple
    ⟨hkey.sound, h.plain _⟩ (d.format.write (key.secret endpoint credentials))
  refine ⟨files', ?_, ?_⟩
  · rw [persist, pathOf, hwrite]
  · have := change_of_file h hkey hchange
    simpa using this

/-- **Removing** a credential that is stored. -/
theorem remove_ok (h : d.Ready here files) (hkey : d.Takes key) (hstored : d.Stores files key) :
    ∃ files', d.remove key files = .ok files' ∧ d.Change here key False files files' := by
  rcases h.folder.remove hkey.proper.simple ⟨hkey.sound, h.plain _⟩ with
    ⟨habsent, -⟩ | ⟨files', hremove, hchange⟩
  · exact absurd habsent ((stores_iff h hkey.proper).1 hstored).2
  · refine ⟨files', ?_, ?_⟩
    · rw [remove, pathOf, hremove]
    · have := change_of_file h hkey hchange
      simpa using this

/-- Removing a credential that is not stored fails. -/
theorem remove_error (h : d.Ready here files) (hkey : d.Takes key)
    (hstored : ¬ d.Stores files key) : ∃ e, d.remove key files = .error e := by
  rcases h.folder.remove hkey.proper.simple ⟨hkey.sound, h.plain _⟩ with
    ⟨-, hremove⟩ | ⟨files', hremove, hchange⟩
  · exact ⟨_, by rw [remove, pathOf, hremove]⟩
  · refine absurd ((stores_iff h hkey.proper).2 ⟨hkey.sound, fun hat => ?_⟩) hstored
    rw [Files.remove, h.folder.locate_join hkey.proper.simple, hkey.sound, hat] at hremove
    cases hremove

end CredentialDirectory

end RegistryFleet
