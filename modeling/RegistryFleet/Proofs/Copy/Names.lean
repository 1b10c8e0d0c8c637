import RegistryFleet.Cluster.Manifests
import RegistryFleet.Copy.Job
import RegistryFleet.Proofs.Storage.Files

/-!
# Proofs/Copy/Names — the names of a rule's objects, and of the files that hold them

* `CopyJob.dnsLabel_sublist` — a name is made of mapped characters of its text, in order.
* `CopyJob.configMapFile`, `CopyJob.cronJobFile` — the two files of a name, which are those of no
  other name.
-/

namespace RegistryFleet

open Files (Simple)

theorem Text.dropEndWhile_sublist (p : Char → Bool) (cs : List Char) :
    (dropEndWhile p cs).Sublist cs := by
  rw [dropEndWhile, ← List.reverse_sublist, List.reverse_reverse]
  exact (List.dropWhile_suffix p).sublist

namespace CopyJob

/-! ## Names -/

/-- No character of a name separates paths. -/
theorem labelChar_ne_slash (c : Char) : labelChar c ≠ '/' := by
  change (if (c.toLower.isAlphanum || c.toLower == '-') = true then c.toLower else '-') ≠ '/'
  split
  · next h =>
    intro he
    rw [he] at h
    revert h
    decide
  · decide

/-- **A name is made of mapped characters of its text**, in order. -/
theorem dnsLabel_sublist (text : String) (longest : Nat) :
    (dnsLabel text longest).toList.Sublist (text.toList.map labelChar) := by
  rw [dnsLabel, String.toList_ofList]
  exact (Text.dropEndWhile_sublist _ _).trans <| (List.take_sublist _ _).trans <|
    (Text.dropEndWhile_sublist _ _).trans (List.dropWhile_suffix _).sublist

theorem no_slash_dnsLabel (text : String) (longest : Nat) :
    '/' ∉ (dnsLabel text longest).toList := fun h => by
  obtain ⟨c, -, hc⟩ := List.mem_map.1 ((dnsLabel_sublist text longest).subset h)
  exact labelChar_ne_slash c hc

/-! ## Files -/

/-- The file of the config map of a name. -/
def configMapFile (base : String) : String := "configmap" ++ "_" ++ (base ++ "-cm") ++ ".yaml"

/-- The file of the cron job of a name. -/
def cronJobFile (base : String) : String := "cronjob" ++ "_" ++ (base ++ "-job") ++ ".yaml"

theorem configMapFile_inj {a b : String} : configMapFile a = configMapFile b ↔ a = b := by
  simp [configMapFile]

theorem cronJobFile_inj {a b : String} : cronJobFile a = cronJobFile b ↔ a = b := by
  simp [cronJobFile]

theorem configMapFile_ne_cronJobFile (a b : String) : configMapFile a ≠ cronJobFile b := fun h => by
  have hlist := congrArg String.toList h
  simp [configMapFile, cronJobFile, String.toList_append] at hlist

theorem simple_configMapFile (rule : Rule) : Simple (configMapFile (baseName rule)) where
  ne_empty := by simp [configMapFile]
  ne_dot h := by
    have hlist := congrArg String.toList h
    simp [configMapFile, String.toList_append] at hlist
  ne_dots h := by
    have hlist := congrArg String.toList h
    simp [configMapFile, String.toList_append] at hlist
  no_slash := by
    simp only [configMapFile, String.toList_append, List.mem_append, not_or]
    exact ⟨⟨⟨by decide, by decide⟩, no_slash_dnsLabel _ _, by decide⟩, by decide⟩

theorem simple_cronJobFile (rule : Rule) : Simple (cronJobFile (baseName rule)) where
  ne_empty := by simp [cronJobFile]
  ne_dot h := by
    have hlist := congrArg String.toList h
    simp [cronJobFile, String.toList_append] at hlist
  ne_dots h := by
    have hlist := congrArg String.toList h
    simp [cronJobFile, String.toList_append] at hlist
  no_slash := by
    simp only [cronJobFile, String.toList_append, List.mem_append, not_or]
    exact ⟨⟨⟨by decide, by decide⟩, no_slash_dnsLabel _ _, by decide⟩, by decide⟩

/-- The file of a config map by its metadata. -/
theorem pathOf_configMap (d : ManifestDirectory) {o : ConfigMap} {base : String}
    (h : o.metadata.name = some (base ++ "-cm")) :
    d.pathOf (.configMap o) = .ok (Files.join d.path (configMapFile base)) := by
  have hname : (ClusterObject.configMap o).name = base ++ "-cm" := by
    rw [ClusterObject.name, ClusterObject.metadata, h, Option.getD_some]
  have hkind : String.ofList ((ClusterObject.configMap o).kind.toList.map Char.toLower)
      = "configmap" := by
    rw [ClusterObject.kind]
    decide
  rw [ManifestDirectory.pathOf, ClusterObject.requireName, hname, if_neg (by simp), Except.map,
    ManifestDirectory.fileName, hkind, configMapFile]

/-- The file of a cron job by its metadata. -/
theorem pathOf_cronJob (d : ManifestDirectory) {o : CronJob} {base : String}
    (h : o.metadata.name = some (base ++ "-job")) :
    d.pathOf (.cronJob o) = .ok (Files.join d.path (cronJobFile base)) := by
  have hname : (ClusterObject.cronJob o).name = base ++ "-job" := by
    rw [ClusterObject.name, ClusterObject.metadata, h, Option.getD_some]
  have hkind : String.ofList ((ClusterObject.cronJob o).kind.toList.map Char.toLower)
      = "cronjob" := by
    rw [ClusterObject.kind]
    decide
  rw [ManifestDirectory.pathOf, ClusterObject.requireName, hname, if_neg (by simp), Except.map,
    ManifestDirectory.fileName, hkind, cronJobFile]

end CopyJob

end RegistryFleet
