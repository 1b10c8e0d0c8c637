import RegistryFleet.Credential.Stored
import RegistryFleet.Proofs.Json.ReadBack

/-!
# Proofs/Credential/Config — the configuration of a container client reads back

The configuration holds user name and password as one text, joined by a colon, and a reader divides
that text at its first colon. So everything comes back as it was just if the user name has no colon
of its own; else the user name ends at its first colon and the password begins behind it.

* `Credentials.divided` — the credentials that a reader makes of what is written for these.
* `Credentials.splits_pair_iff` — they are the pair split at its first colon.
* `StoredCredentials.ofConfig_write` — the configuration reads as its endpoint and those.
* `CredentialKey.config_reads_back` — so does the configuration that the secret of a key holds.
-/

namespace RegistryFleet

namespace Credentials

/-- **The credentials as they read back** — a colon in the user name ends it. -/
def divided (c : Credentials) : Credentials :=
  match Text.cutAt? ':' c.username.toList with
  | none => c
  | some (front, back) => ⟨String.ofList front, String.ofList back ++ ":" ++ c.password⟩

variable (c : Credentials)

theorem toList_pair : c.pair.toList = c.username.toList ++ ':' :: c.password.toList := by
  simp [pair, String.toList_append]

/-- A colon in front decides, wherever more of them stand behind it. -/
theorem cutAt?_pair : Text.cutAt? ':' c.pair.toList
    = some (c.divided.username.toList, c.divided.password.toList) := by
  rw [toList_pair, divided]
  cases hcut : Text.cutAt? ':' c.username.toList with
  | none => exact Text.cutAt?_append _ (Text.cutAt?_eq_none_iff.1 hcut)
  | some halves =>
    obtain ⟨front, back⟩ := halves
    obtain ⟨husername, hfront⟩ := Text.eq_append_of_cutAt? hcut
    rw [husername, List.append_assoc, List.cons_append, Text.cutAt?_append _ hfront]
    simp [String.toList_append]

/-- **Credentials come back as they were** just if their user name has no colon. -/
theorem divided_eq_self_iff : c.divided = c ↔ ':' ∉ c.username.toList := by
  rw [← Text.cutAt?_eq_none_iff, divided]
  cases hcut : Text.cutAt? ':' c.username.toList with
  | none => simp
  | some halves =>
    obtain ⟨front, back⟩ := halves
    obtain ⟨husername, -⟩ := Text.eq_append_of_cutAt? hcut
    simp only [reduceCtorEq, iff_false]
    intro he
    have hlength := congrArg (fun c => c.username.toList.length) he
    rw [husername] at hlength
    simp at hlength

/-- **A text splits into credentials** at its first colon: it has none in front of that. -/
def Splits (text : String) (read : Credentials) : Prop :=
  ':' ∉ read.username.toList ∧ text = read.username ++ ":" ++ read.password

/-- Only one way to split a text is at its first colon. -/
theorem splits_iff {text : String} {read : Credentials} : Splits text read
    ↔ Text.cutAt? ':' text.toList = some (read.username.toList, read.password.toList) := by
  constructor
  · rintro ⟨hfront, rfl⟩
    simp only [String.toList_append, List.append_assoc]
    exact Text.cutAt?_append _ hfront
  · intro hcut
    obtain ⟨htext, hfront⟩ := Text.eq_append_of_cutAt? hcut
    exact ⟨hfront, String.toList_inj.1 (by simp [htext])⟩

/-- **What reads back is the pair, split at its first colon.** -/
theorem splits_pair_iff {read : Credentials} : Splits c.pair read ↔ read = c.divided := by
  rw [splits_iff, cutAt?_pair, Option.some.injEq, Prod.mk.injEq, String.toList_inj,
    String.toList_inj, ← Credentials.mk.injEq]
  exact eq_comm

end Credentials

/-! ## The configuration -/

/-- The text of a configuration: all but the endpoint and the entry is fixed. -/
theorem DockerConfig.toList_write (endpoint : String) (c : Credentials) :
    (DockerConfig.write endpoint c).toList
      = "\x7b\"auths\":\x7b".toList ++ (Json.quote endpoint).toList
        ++ (":\x7b\"auth\":".toList ++ (Json.quote (Text.Base64.encode c.pair)).toList
          ++ "\x7d\x7d\x7d".toList) := by
  have hauths : Json.quote "auths" = "\"auths\"" := rfl
  have hauth : Json.quote "auth" = "\"auth\"" := rfl
  simp only [write, data, Json.compact, Json.compactFields, hauths, hauth, String.toList_append,
    List.append_assoc]
  rfl

namespace StoredCredentials

theorem ofAuth_encode (c : Credentials) :
    ofAuth (Text.Base64.encode c.pair) = .ok c.divided := by
  rw [ofAuth, Text.Base64.decode?_encode]
  simp only [Text.Utf8.decode?_octets, c.cutAt?_pair, String.ofList_toList]

/-- The tree of a configuration: three records of one field each. -/
theorem ofText_write (endpoint : String) (c : Credentials) :
    Json.ofText (DockerConfig.write endpoint c)
      = (.record [("auths", .record [(endpoint,
          .record [("auth", .text (Text.Base64.encode c.pair))] false)] false)] false, true) := by
  refine Json.ofText_of_value ?_
  obtain ⟨fuel, hfuel⟩ : ∃ fuel, 2 * (DockerConfig.write endpoint c).length + 2 = fuel + 7 :=
    ⟨2 * (DockerConfig.write endpoint c).length - 5, by
      have hlength : 3 ≤ (DockerConfig.write endpoint c).length := by
        rw [← String.length_toList, DockerConfig.toList_write, List.append_assoc,
          List.length_append]
        exact Nat.le_trans (show 3 ≤ 10 by decide) (Nat.le_add_right _ _)
      omega⟩
  rw [hfuel, ← List.append_nil (DockerConfig.write endpoint c).toList]
  exact Json.value_field (Json.value_field (Json.value_field (Json.value_quote _ _ _)))

theorem read_write (endpoint : String) (c : Credentials) :
    DockerConfig.typed.read (DockerConfig.write endpoint c)
      = .ok (Keyed.empty.insert endpoint (Text.Base64.encode c.pair)) := by
  rw [Json.Typed.read, ofText_write]
  rfl

/-- **A configuration reads back** as its endpoint and its credentials. -/
theorem ofConfig_write (endpoint : String) (c : Credentials) :
    ofConfig (DockerConfig.write endpoint c) = .ok ⟨endpoint, c.divided⟩ := by
  rw [ofConfig, read_write]
  change (ofAuth _).map _ = _
  rw [ofAuth_encode]
  rfl

end StoredCredentials

/-- **The configuration of a container client is exact** — whatever the endpoint, the user name and
the password: the secret of a key holds a text that reads, without a fault, as the endpoint and as
what the pair is when it is split at its first colon. So the credentials come back as they were just
if their user name has no colon. -/
theorem CredentialKey.config_reads_back (key : CredentialKey) (endpoint : String)
    (c : Credentials) :
    ∃ text read,
      ((key.secret endpoint c).stringData.bind fun m => m.get? DockerConfig.entryKey) = some text
      ∧ StoredCredentials.ofConfig text = .ok ⟨endpoint, read⟩
      ∧ (∀ other, Credentials.Splits (c.username ++ ":" ++ c.password) other ↔ other = read)
      ∧ (read = c ↔ ':' ∉ c.username.toList) :=
  ⟨DockerConfig.write endpoint c, c.divided, rfl, StoredCredentials.ofConfig_write endpoint c,
    fun _ => c.splits_pair_iff, c.divided_eq_self_iff⟩

end RegistryFleet
