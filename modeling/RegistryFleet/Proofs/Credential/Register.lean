import RegistryFleet.Proofs.Credential.Directory
import RegistryFleet.Proofs.Credential.Secret

/-!
# Proofs/Credential/Register — a directory of credentials is a register by file names

Storing and removing are the only effects, and each concerns one file. So what a key reads back is
told by the last effect on its file: stored credentials, if that effect stored some, and nothing if
it removed them. The file of a key is not always its own, since the underscores that divide its
three names may stand in the names as well.

* `Effect.lastOn` — the last of some effects on a file.
* `CredentialDirectory.Registers` — what a directory then holds.
-/

namespace RegistryFleet

open Files (Folder Simple fault?)

namespace Effect

/-- The key that an effect concerns. -/
def key? : Effect → Option CredentialKey
  | none => .none
  | persist key _ _ => some key
  | remove key => some key

/-- The file that an effect concerns. -/
def fileName? (e : Effect) : Option String := e.key?.map CredentialKey.fileName

/-- **The last effect on a file.** -/
def lastOn (name : String) (es : List Effect) : Option Effect :=
  es.reverse.find? fun e => e.fileName? == some name

/-- **The last effect on a key.** -/
def lastFor (k : CredentialKey) (es : List Effect) : Option Effect :=
  es.reverse.find? fun e => e.key? == some k

variable {name : String} {e : Effect} {es : List Effect} {k : CredentialKey}

theorem lastOn_append : lastOn name (es ++ [e])
    = if e.fileName? = some name then some e else lastOn name es := by
  rw [lastOn, List.reverse_append, List.reverse_singleton, List.singleton_append, List.find?_cons]
  by_cases h : e.fileName? = some name
  · simp [h]
  · rw [beq_false_of_ne h, if_neg h]
    rfl

/-- Where every key has a file of its own, the last effect on its file is the last one on it. -/
theorem lastOn_fileName (hes : ∀ e ∈ es, ∀ key, e.key? = some key → key.Proper) (hk : k.Proper) :
    lastOn k.fileName es = lastFor k es := by
  rw [lastOn, lastFor, ← List.head?_filter, ← List.head?_filter]
  refine congrArg List.head? (List.filter_congr fun e he => ?_)
  have hproper := hes e (List.mem_reverse.1 he)
  rw [Bool.eq_iff_iff, beq_iff_eq, beq_iff_eq, fileName?]
  cases hkey : e.key? with
  | none => simp
  | some key =>
    rw [Option.map_some, Option.some.injEq, Option.some.injEq]
    exact (hproper key hkey).fileName_inj hk

end Effect

namespace CredentialDirectory

variable {d : CredentialDirectory} {here : List String} {files files' : Files}
  {key k : CredentialKey} {e : Effect} {es : List Effect}

/-! ## Effects, one after another -/

/-- The files after an effect; one that fails leaves them as they were. -/
def after (d : CredentialDirectory) (files : Files) (e : Effect) : Files :=
  match e.settle (some d) files with
  | .ok files' => files'
  | .error _ => files

/-- The files after some effects. -/
def perform (d : CredentialDirectory) (files : Files) (es : List Effect) : Files :=
  es.foldl d.after files

theorem perform_append (files : Files) (es : List Effect) (e : Effect) :
    d.perform files (es ++ [e]) = d.after (d.perform files es) e := by
  rw [perform, List.foldl_append]
  rfl

/-- **A key whose file can be one of the directory.** -/
structure Places (d : CredentialDirectory) (key : CredentialKey) : Prop where
  simple : Simple key.fileName
  sound : fault? d.path key.fileName = none

/-- An effect on a key whose file can be one of the directory, if it is on a key at all. -/
def Admits (d : CredentialDirectory) (e : Effect) : Prop := ∀ key ∈ e.key?, d.Places key

/-- What an effect leaves in its file. -/
def content? (d : CredentialDirectory) : Effect → Option String
  | .none => none
  | .persist key endpoint c => some (d.format.write (key.secret endpoint c))
  | .remove _ => none

/-- **What a directory holds** after some effects: in every file what the last effect on it left. -/
structure Registers (d : CredentialDirectory) (here : List String) (files : Files)
    (es : List Effect) : Prop where
  folder : files.Folder d.path here
  holds : ∀ name, files.at? (here ++ [name])
    = ((Effect.lastOn name es).bind d.content?).map .file

theorem registers_nil (h : files.Folder d.path here)
    (hempty : ∀ name, files.at? (here ++ [name]) = none) : d.Registers here files [] :=
  ⟨h, fun name => by rw [hempty]; rfl⟩

theorem Registers.free (h : d.Registers here files es) (name : String) :
    files.at? (here ++ [name]) ≠ some .directory := by
  rw [h.holds name]
  cases (Effect.lastOn name es).bind d.content? <;> simp

/-- A change of the file that an effect concerns. -/
theorem Registers.of_change (h : d.Registers here files es) {name : String}
    (hname : e.fileName? = some name)
    (hchange : Folder.Change d.path here name (d.content? e) files files') :
    d.Registers here files' (es ++ [e]) := by
  refine ⟨hchange.folder, fun other => ?_⟩
  rw [Effect.lastOn_append]
  by_cases hother : other = name
  · rw [hother, hchange.self, if_pos hname, Option.bind_some]
  · rw [hchange.others other hother, h.holds other,
      if_neg fun he => hother (Option.some.inj (he.symm.trans hname))]

/-- **One effect more.** -/
theorem Registers.after (h : d.Registers here files es) (he : d.Admits e) :
    d.Registers here (d.after files e) (es ++ [e]) := by
  cases e with
  | none =>
    refine ⟨h.folder, fun name => ?_⟩
    rw [Effect.lastOn_append, if_neg (by simp [Effect.fileName?, Effect.key?])]
    exact h.holds name
  | persist key endpoint c =>
    have hkey := he key rfl
    obtain ⟨files', hwrite, hchange⟩ := h.folder.write hkey.simple ⟨hkey.sound, h.free _⟩
      (d.format.write (key.secret endpoint c))
    have hafter : d.after files (.persist key endpoint c) = files' := by
      simp only [CredentialDirectory.after, Effect.settle, Option.elim_some, persist, pathOf,
        hwrite]
    rw [hafter]
    exact h.of_change rfl hchange
  | remove key =>
    have hkey := he key rfl
    rcases h.folder.remove hkey.simple ⟨hkey.sound, h.free _⟩ with
      ⟨habsent, hremove⟩ | ⟨files', hremove, hchange⟩
    · -- nothing was there, so the last effect on the file had left nothing either
      have hafter : d.after files (.remove key) = files := by
        simp only [CredentialDirectory.after, Effect.settle, Option.elim_some, remove, pathOf,
          hremove]
      rw [hafter]
      refine ⟨h.folder, fun name => ?_⟩
      rw [Effect.lastOn_append]
      by_cases hname : key.fileName = name
      · rw [if_pos (by rw [← hname]; rfl), ← hname, habsent]
        rfl
      · rw [if_neg (by simpa [Effect.fileName?, Effect.key?] using hname)]
        exact h.holds name
    · have hafter : d.after files (.remove key) = files' := by
        simp only [CredentialDirectory.after, Effect.settle, Option.elim_some, remove, pathOf,
          hremove]
      rw [hafter]
      exact h.of_change rfl hchange

/-- **All effects.** -/
theorem registers_perform (h : files.Folder d.path here)
    (hempty : ∀ name, files.at? (here ++ [name]) = none) :
    ∀ {es : List Effect}, (∀ e ∈ es, d.Admits e) → d.Registers here (d.perform files es) es := by
  intro es
  induction es using List.reverseRecOn with
  | nil => exact fun _ => registers_nil h hempty
  | append_singleton es e ih =>
    intro hadmits
    rw [perform_append]
    exact (ih fun e he => hadmits e (List.mem_append_left _ he)).after
      (hadmits e (List.mem_append_right _ (List.mem_singleton_self e)))

/-! ## Reading back -/

/-- **A key reads back** what the last effect on its file left. -/
theorem Registers.ofFile (h : d.Registers here files es) (hk : d.Places k) :
    StoredCredentials.ofFile files (d.pathOf k)
      = match (Effect.lastOn k.fileName es).bind d.content? with
        | none => .error (.recoverable ("cannot read credential file " ++ d.pathOf k ++ ": "
            ++ FileError.absent.message))
        | some text => (StoredCredentials.ofText text).mapError fun f =>
            .configuration (d.pathOf k ++ ": " ++ f.message) := by
  rw [StoredCredentials.ofFile, pathOf, h.folder.read_eq hk.simple hk.sound, h.holds]
  cases (Effect.lastOn k.fileName es).bind d.content? <;> rfl

/-- **A key reads back credentials** just if the last effect on its file stored some. -/
theorem Registers.ofFile_eq_ok_iff (h : d.Registers here files es) (hk : d.Places k)
    (hcarries : ∀ key endpoint c, Effect.lastOn k.fileName es = some (.persist key endpoint c) →
      d.format.Carries key endpoint) (stored : StoredCredentials) :
    StoredCredentials.ofFile files (d.pathOf k) = .ok stored
      ↔ ∃ key c, Effect.lastOn k.fileName es = some (.persist key stored.endpoint c)
        ∧ stored.credentials = c.divided := by
  rw [h.ofFile hk]
  cases hlast : Effect.lastOn k.fileName es with
  | none => simp
  | some e =>
    cases e with
    | none => simp [content?]
    | remove key => simp [content?]
    | persist key endpoint c =>
      simp only [Option.bind_some, content?,
        SecretFormat.ofText_write (hcarries key endpoint c hlast) c]
      constructor
      · intro he
        cases he
        exact ⟨key, c, rfl, rfl⟩
      · rintro ⟨key', c', he, hcredentials⟩
        cases he
        cases stored
        simp_all [Except.mapError]

/-- **A directory of credentials is a register by file names** — whatever was stored and removed
in a directory that was empty, a key reads back the endpoint of the last effect on its file and the
credentials that a reader makes of those stored, if that effect stored some, and otherwise nothing;
effects on other files change nothing. The credentials are those stored where the user name has no
colon, and the last effect on the file is the last one on the key where the names of registry and
project have no underscore. -/
theorem ofFile_perform (h : files.Folder d.path here)
    (hempty : ∀ name, files.at? (here ++ [name]) = none) (hes : ∀ e ∈ es, d.Admits e)
    (hk : d.Places k)
    (hcarries : ∀ key endpoint c, Effect.lastOn k.fileName es = some (.persist key endpoint c) →
      d.format.Carries key endpoint) :
    (∀ stored, StoredCredentials.ofFile (d.perform files es) (d.pathOf k) = .ok stored
      ↔ ∃ key c, Effect.lastOn k.fileName es = some (.persist key stored.endpoint c)
        ∧ stored.credentials = c.divided)
    ∧ (∀ e, d.Admits e → e.fileName? ≠ some k.fileName →
      StoredCredentials.ofFile (d.perform files (es ++ [e])) (d.pathOf k)
        = StoredCredentials.ofFile (d.perform files es) (d.pathOf k))
    ∧ (∀ c : Credentials, c.divided = c ↔ ':' ∉ c.username.toList)
    ∧ ((∀ e ∈ es, ∀ key, e.key? = some key → key.Proper) → k.Proper →
      Effect.lastOn k.fileName es = Effect.lastFor k es) := by
  have hregisters := registers_perform h hempty hes
  refine ⟨hregisters.ofFile_eq_ok_iff hk hcarries, fun e he hother => ?_,
    Credentials.divided_eq_self_iff, Effect.lastOn_fileName⟩
  have hmore := hregisters.after he
  rw [← perform_append] at hmore
  rw [hmore.ofFile hk, hregisters.ofFile hk, Effect.lastOn_append, if_neg hother]

/-! ## Two keys of one file -/

/-- A directory at the root of an empty tree of files. -/
def atRoot : CredentialDirectory := ⟨".", .yaml⟩

/-- What is stored for one key, and removed for another whose names are joined to the same. -/
def namesakes : List Effect :=
  [.persist ⟨"a_b", "c", "d"⟩ "one.example.com" ⟨"u", "p"⟩, .remove ⟨"a", "b_c", "d"⟩]

theorem folder_atRoot : Files.empty.Folder atRoot.path [] := ⟨by decide, rfl⟩

theorem admits_namesakes : ∀ e ∈ namesakes, atRoot.Admits e := by
  have hplaces : ∀ key : CredentialKey,
      key = ⟨"a_b", "c", "d"⟩ ∨ key = ⟨"a", "b_c", "d"⟩ → atRoot.Places key := by
    rintro key (rfl | rfl) <;>
    exact ⟨⟨by decide, by decide, by decide, by decide⟩, by decide +kernel⟩
  intro e he key hkey
  refine hplaces key ?_
  simp only [namesakes, List.mem_cons, List.not_mem_nil, or_false] at he
  rcases he with rfl | rfl <;> cases hkey
  · exact .inl rfl
  · exact .inr rfl

/-- The first key reads back what was stored for it, until the other one is removed. -/
theorem ofFile_perform_namesakes :
    StoredCredentials.ofFile (atRoot.perform Files.empty (namesakes.take 1))
        (atRoot.pathOf ⟨"a_b", "c", "d"⟩) = .ok ⟨"one.example.com", ⟨"u", "p"⟩⟩
      ∧ ∀ stored, StoredCredentials.ofFile (atRoot.perform Files.empty namesakes)
        (atRoot.pathOf ⟨"a_b", "c", "d"⟩) ≠ .ok stored := by
  have hk : atRoot.Places ⟨"a_b", "c", "d"⟩ := admits_namesakes _ List.mem_cons_self _ rfl
  refine ⟨((ofFile_perform folder_atRoot (fun _ => rfl)
    (fun e he => admits_namesakes e (List.mem_of_mem_take he)) hk
    fun _ _ _ _ hformat => by cases hformat).1 _).2 ⟨_, ⟨"u", "p"⟩, rfl, rfl⟩,
    fun stored hread => ?_⟩
  obtain ⟨key, c, hlast, -⟩ := ((ofFile_perform folder_atRoot (fun _ => rfl) admits_namesakes hk
    fun _ _ _ _ hformat => by cases hformat).1 stored).1 hread
  have hremoved : Effect.lastOn "a_b_c_d_creds.yaml" namesakes
      = some (.remove ⟨"a", "b_c", "d"⟩) := by decide
  cases hremoved.symm.trans hlast

/-- **Removing a credential can remove that of another key** — a key does not always read back what
was last stored for it. -/
theorem ofFile_other_key : ¬ ∀ (d : CredentialDirectory) (place : List String) (files : Files)
    (es : List Effect) (k : CredentialKey) (endpoint : String) (c : Credentials),
    files.Folder d.path place → (∀ name, files.at? (place ++ [name]) = none) →
    (∀ e ∈ es, d.Admits e) → d.Places k →
    Effect.lastFor k es = some (.persist k endpoint c) →
    StoredCredentials.ofFile (d.perform files es) (d.pathOf k) = .ok ⟨endpoint, c⟩ := by
  intro hclaim
  have hk : atRoot.Places ⟨"a_b", "c", "d"⟩ := admits_namesakes _ List.mem_cons_self _ rfl
  have hread := hclaim atRoot [] Files.empty namesakes ⟨"a_b", "c", "d"⟩ "one.example.com"
    ⟨"u", "p"⟩ folder_atRoot (fun _ => rfl) admits_namesakes hk rfl
  have hregisters := registers_perform folder_atRoot (fun _ => rfl) admits_namesakes
  obtain ⟨key, c, hlast, -⟩ := (hregisters.ofFile_eq_ok_iff hk
    (fun _ _ _ _ hformat => by cases hformat) _).1 hread
  have hremoved : Effect.lastOn "a_b_c_d_creds.yaml" namesakes
      = some (.remove ⟨"a", "b_c", "d"⟩) := by decide
  cases hremoved.symm.trans hlast

end CredentialDirectory

end RegistryFleet
