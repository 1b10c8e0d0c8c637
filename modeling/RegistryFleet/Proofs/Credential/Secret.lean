import RegistryFleet.Proofs.Keyed
import RegistryFleet.Credential.Directory
import RegistryFleet.Proofs.Credential.Config
import RegistryFleet.Proofs.Yaml.Block
import RegistryFleet.Proofs.Yaml.Flow

/-!
# Proofs/Credential/Secret — a written secret reads back

A secret is a tree of texts. Its names are fixed words that need no quotes, so whatever the texts
are, the tree is read back as it was written, and from it the configuration that holds the
credentials. As YAML a text is escaped where it must be; as JSON it keeps characters that YAML
forbids or takes for a line break, so there the texts must be free of them.

* `CredentialKey.secretFields` — the tree of a secret.
* `CredentialKey.read_secretFields` — its reading.
* `SecretFormat.Carries` — what a format can carry.
* `SecretFormat.ofText_write` — the text of a secret reads back as its credentials.
-/

namespace RegistryFleet

open Yaml

namespace CredentialKey

/-! ## The tree of a secret -/

/-- The fields of a secret as it is written. -/
def secretFields (k : CredentialKey) (endpoint : String) (c : Credentials) :
    List (String × Data) :=
  [ ("apiVersion", .text "v1"),
    ("kind", .text "Secret"),
    ("metadata", .record
      [ ("annotations", .record
          [(projectNameKey, .text k.project), (registryNameKey, .text k.registry)]),
        ("name", .text k.member) ]),
    ("stringData", .record [(DockerConfig.entryKey, .text (DockerConfig.write endpoint c))]),
    ("type", .text DockerConfig.secretType) ]

theorem data_secret (k : CredentialKey) (endpoint : String) (c : Credentials) :
    (ClusterObject.secret (k.secret endpoint c)).data = .record (k.secretFields endpoint c) := by
  have hne : ¬ registryNameKey < projectNameKey := by decide
  have hne' : registryNameKey ≠ projectNameKey := by decide
  simp [ClusterObject.data, ClusterObject.body, Data.fields, secret, Metadata.data, Data.ofTexts,
    Keyed.ofList, Keyed.insert, Keyed.insertEntry, Keyed.empty, secretFields, ClusterObject.version,
    ClusterObject.kind, hne, hne']

/-- The names that stand in a written secret. -/
def secretNames : List String :=
  ["apiVersion", "kind", "metadata", "annotations", projectNameKey, registryNameKey, "name",
    "stringData", DockerConfig.entryKey, "type"]

/-- The texts that stand in a written secret. -/
def secretTexts (k : CredentialKey) (endpoint : String) (c : Credentials) : List String :=
  ["v1", "Secret", DockerConfig.secretType, k.project, k.registry, k.member,
    DockerConfig.write endpoint c]

theorem isTree_secretFields {key text : String → Prop} {k : CredentialKey} {endpoint : String}
    {c : Credentials} (hkeys : ∀ w ∈ secretNames, key w)
    (htexts : ∀ w ∈ k.secretTexts endpoint c, text w) :
    (Data.record (k.secretFields endpoint c)).IsTree key text := by
  simp only [secretNames, secretTexts, List.forall_mem_cons, List.not_mem_nil, false_imp_iff,
    implies_true, and_true] at hkeys htexts
  obtain ⟨hversion, hkind, hmetadata, hannotations, hprojectName, hregistryName, hname, hdata,
    hentry, htype⟩ := hkeys
  obtain ⟨htextVersion, htextKind, htextType, hproject, hregistry, hmember, hwrite⟩ := htexts
  have hmarks : (Data.record [(projectNameKey, .text k.project),
      (registryNameKey, .text k.registry)]).IsTree key text :=
    .record (List.cons_ne_nil _ _) (by simp [hprojectName, hregistryName])
      (by simp [Data.IsTree.text hproject, Data.IsTree.text hregistry])
  have hobject : (Data.record [("annotations", .record [(projectNameKey, .text k.project),
      (registryNameKey, .text k.registry)]), ("name", .text k.member)]).IsTree key text :=
    .record (List.cons_ne_nil _ _) (by simp [hannotations, hname])
      (by simp [hmarks, Data.IsTree.text hmember])
  have hconfig : (Data.record [(DockerConfig.entryKey,
      .text (DockerConfig.write endpoint c))]).IsTree key text :=
    .record (List.cons_ne_nil _ _) (by simp [hentry]) (by simp [Data.IsTree.text hwrite])
  refine .record (List.cons_ne_nil _ _) ?_ ?_
  · simp [secretFields, hversion, hkind, hmetadata, hdata, htype]
  · simp [secretFields, hobject, hconfig, Data.IsTree.text htextVersion,
      Data.IsTree.text htextKind, Data.IsTree.text htextType]

end CredentialKey

/-! ## Reading the document -/

namespace Yaml.Typed

variable {α β : Type} {d : Document} {path : String}

theorem text_scalar (plain : Bool) (s : String) : text d path (.scalar none plain s) = .ok s := rfl

/-- A text may be left out only where nothing is written. -/
theorem optional_text (plain : Bool) {s : String} (h : Plain.isNull s = false) :
    optional text d path (.scalar none plain s) = .ok (some s) := by
  cases plain <;> simp [optional, Document.follow, text_scalar, h, Except.map]

theorem optional_text_ok (d : Document) (path : String) (plain : Bool) (s : String) :
    ∃ o, optional text d path (.scalar none plain s) = .ok o := by
  cases plain
  · exact ⟨_, rfl⟩
  · cases h : Plain.isNull s
    · exact ⟨_, optional_text true h⟩
    · exact ⟨none, by simp [optional, Document.follow, h]⟩

theorem fields_cons {known : α → String → Option (Typed α)} {state next : α} {name : String}
    {plain : Bool} {read : Typed α} {v : Node} {rest : List (Node × Node)}
    (hknown : known state name = some read)
    (hread : ∀ path, read d path v = .ok next) :
    fields known d path state ((.scalar none plain name, v) :: rest)
      = fields known d path next rest := by
  rw [fields]
  simp [Document.follow, hknown, hread]

end Yaml.Typed

namespace CredentialKey

variable (w : Layout) (k : CredentialKey) (endpoint : String) (c : Credentials) (d : Document)
  (path : String)

/-- The metadata of a written secret has the form that metadata must have. -/
theorem read_metadata (project registry member : String) :
    Metadata.typed d path (w.node (.record
      [ ("annotations", .record
          [(projectNameKey, .text project), (registryNameKey, .text registry)]),
        ("name", .text member) ])) = .ok () := by
  have hannotations : ∀ path, (Typed.optional (Typed.map Typed.text) d path (w.node (.record
      [(projectNameKey, .text project), (registryNameKey, .text registry)]))).map
      (fun _ => ()) = .ok () := fun _ => rfl
  have hname : ∀ path, (Typed.optional Typed.text d path (w.node (.text member))).map
      (fun _ => ()) = .ok () := fun path => by
    obtain ⟨o, ho⟩ := Typed.optional_text_ok d path (w.plain false member) member
    rw [Layout.node, ho]
    rfl
  rw [Metadata.typed, Typed.record, Layout.node]
  simp only [Document.follow, Layout.fieldNodes]
  rw [Typed.fields_cons (by rfl) hannotations, Typed.fields_cons (by rfl) hname]
  rfl

/-- **A written secret is read** as what it holds. -/
theorem read_secretFields :
    SecretFields.typed d path (w.node (.record (k.secretFields endpoint c)))
      = .ok ⟨none, some (Keyed.empty.insert DockerConfig.entryKey (DockerConfig.write endpoint c)),
          some DockerConfig.secretType⟩ := by
  have hversion : ∀ path, SecretFields.fixed "v1" ⟨none, none, none⟩ d path
      (w.node (.text "v1")) = .ok ⟨none, none, none⟩ := fun _ => rfl
  have hkind : ∀ path, SecretFields.fixed "Secret" ⟨none, none, none⟩ d path
      (w.node (.text "Secret")) = .ok ⟨none, none, none⟩ := fun _ => rfl
  have hmetadata : ∀ path, (Typed.optional Metadata.typed d path (w.node (.record
      [ ("annotations", .record
          [(projectNameKey, .text k.project), (registryNameKey, .text k.registry)]),
        ("name", .text k.member) ]))).map (fun _ => (⟨none, none, none⟩ : SecretFields))
      = .ok ⟨none, none, none⟩ := fun path => by
    have hread := read_metadata w d path k.project k.registry k.member
    rw [Layout.node] at hread ⊢
    simp only [Typed.optional, Document.follow, hread]
    rfl
  have hdata : ∀ path, (Typed.optional (Typed.map Typed.text) d path (w.node (.record
      [(DockerConfig.entryKey, .text (DockerConfig.write endpoint c))]))).map
      (fun m => (⟨none, m, none⟩ : SecretFields))
      = .ok ⟨none, some (Keyed.empty.insert DockerConfig.entryKey
          (DockerConfig.write endpoint c)), none⟩ := fun _ => rfl
  have htype : ∀ path m, (Typed.optional Typed.text d path
      (w.node (.text DockerConfig.secretType))).map (fun t => (⟨none, m, t⟩ : SecretFields))
      = .ok ⟨none, m, some DockerConfig.secretType⟩ := fun path m => by
    rw [Layout.node, Typed.optional_text _ (by decide)]
    rfl
  rw [SecretFields.typed, Typed.record, Layout.node]
  simp only [Document.follow, secretFields, Layout.fieldNodes]
  rw [Typed.fields_cons (by rfl) hversion, Typed.fields_cons (by rfl) hkind,
    Typed.fields_cons (by rfl) hmetadata, Typed.fields_cons (by rfl) hdata,
    Typed.fields_cons (by rfl) fun path => htype path _]
  rfl

/-- **The credentials of a written secret**, in either layout. -/
theorem ofText_of_document {w : Layout} {s : String}
    (hs : Document.ofText s = w.document (.record (k.secretFields endpoint c))) :
    StoredCredentials.ofText s = .ok ⟨endpoint, c.divided⟩ := by
  have hread : SecretFields.typed.read s = .ok ⟨none, some (Keyed.empty.insert
      DockerConfig.entryKey (DockerConfig.write endpoint c)), some DockerConfig.secretType⟩ := by
    rw [Typed.read, hs]
    simp only [Layout.document, read_secretFields w k endpoint c]
    rfl
  rw [StoredCredentials.ofText, hread]
  have hconfig : StoredCredentials.configOf ⟨none, some (Keyed.empty.insert
      DockerConfig.entryKey (DockerConfig.write endpoint c)), some DockerConfig.secretType⟩
      = .ok (DockerConfig.write endpoint c) := by
    simp [StoredCredentials.configOf]
  have hcodec := StoredCredentials.ofConfig_write endpoint c
  simp only [hconfig, bind, Except.bind, hcodec]

end CredentialKey

/-! ## Both formats -/

theorem quotable_quote {s : String} (h : IsFlowText s) : IsFlowText (Json.quote s) :=
  fun d hd => Bool.or_eq_true_iff.2 (.inr (inline_quote h d hd))

theorem quotable_encode (s : String) : IsFlowText (Text.Base64.encode s) := by
  intro d hd
  rw [Text.Base64.encode, String.toList_ofList] at hd
  rcases Text.Base64.exists_of_mem_encodeList hd with rfl | ⟨v, hv, rfl⟩
  · rfl
  · exact (by decide : ∀ v < 64, isQuotable (Text.Base64.symbol v) = true) v hv

theorem isFlowText_of_all {s : String} (h : s.toList.all isQuotable = true) : IsFlowText s :=
  List.all_eq_true.1 h

/-- A configuration holds no characters that its endpoint does not bring in. -/
theorem DockerConfig.isFlowText_write {endpoint : String} (h : IsFlowText endpoint)
    (c : Credentials) : IsFlowText (DockerConfig.write endpoint c) := by
  intro d hd
  rw [DockerConfig.toList_write] at hd
  simp only [List.mem_append] at hd
  rcases hd with (hd | hd) | (hd | hd) | hd
  · exact isFlowText_of_all (s := "\x7b\"auths\":\x7b") (by decide) d hd
  · exact quotable_quote h d hd
  · exact isFlowText_of_all (s := ":\x7b\"auth\":") (by decide) d hd
  · exact quotable_quote (quotable_encode _) d hd
  · exact isFlowText_of_all (s := "\x7d\x7d\x7d") (by decide) d hd

/-- **What a format can carry** of a key and an endpoint: YAML everything, JSON what YAML readers
take for text. -/
def SecretFormat.Carries (format : SecretFormat) (k : CredentialKey) (endpoint : String) : Prop :=
  format = .json → IsFlowText k.registry ∧ IsFlowText k.project ∧ IsFlowText k.member
    ∧ IsFlowText endpoint

theorem isKey_secretNames : ∀ w ∈ CredentialKey.secretNames, IsKey w := by
  have h : ∀ w ∈ CredentialKey.secretNames, styleOf true w = .plain
      ∧ w.utf8ByteSize ≤ longestKey := by decide
  exact fun w hw => ⟨(h w hw).1, (h w hw).2⟩

theorem isFlowKey_secretNames : ∀ w ∈ CredentialKey.secretNames, IsFlowKey w := by
  have h : ∀ w ∈ CredentialKey.secretNames, w.toList.all isQuotable = true
      ∧ w.toList.contains ' ' = false
      ∧ (Json.quote w).toList.length ≤ PossibleKey.reach := by decide
  intro w hw
  obtain ⟨htext, hword, hreach⟩ := h w hw
  exact ⟨isFlowText_of_all htext, by simpa using hword, hreach⟩

/-- **A stored credential reads back** as its endpoint and the credentials that a reader makes of
what was written. -/
theorem SecretFormat.ofText_write {format : SecretFormat} {k : CredentialKey} {endpoint : String}
    (h : format.Carries k endpoint) (c : Credentials) :
    StoredCredentials.ofText (format.write (k.secret endpoint c)) = .ok ⟨endpoint, c.divided⟩ := by
  cases format with
  | yaml =>
    change StoredCredentials.ofText (document (ClusterObject.data _)) = _
    rw [k.data_secret]
    exact k.ofText_of_document endpoint c (ofText_document
      (CredentialKey.isTree_secretFields isKey_secretNames fun _ _ => trivial))
  | json =>
    obtain ⟨hregistry, hproject, hmember, hendpoint⟩ := h rfl
    change StoredCredentials.ofText (Json.pretty (ClusterObject.data _)) = _
    rw [k.data_secret]
    refine k.ofText_of_document endpoint c (ofText_pretty
      (CredentialKey.isTree_secretFields isFlowKey_secretNames ?_))
    simp only [CredentialKey.secretTexts, List.forall_mem_cons, List.not_mem_nil, false_imp_iff,
      implies_true, and_true]
    exact ⟨isFlowText_of_all (by decide), isFlowText_of_all (by decide),
      isFlowText_of_all (by decide), hproject, hregistry, hmember,
      DockerConfig.isFlowText_write hendpoint c⟩

end RegistryFleet
