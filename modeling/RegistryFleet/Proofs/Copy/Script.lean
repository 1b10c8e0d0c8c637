import RegistryFleet.Proofs.Copy.Delivery

/-!
# Proofs/Copy/Script — no text breaks out of the script of a job

The script of a job is a loop around one line. A shell reads that line as one command, whatever
stands in the credentials, the host and the project: every quoted word ends where it was meant to,
and the line break behind the last one ends the command. The one word that is not quoted is the
variable of the loop, which no other argument can be mistaken for.

* `CopyTool.isSome_script?` — a script fails for a NUL in one of its arguments, and else never.
* `CopyJob.build_one_command` — a shell finds in a script its head, one command and its end.
-/

namespace RegistryFleet

/-! ## The script -/

namespace CopyTool

variable {source destination : Credentials} {target : String}

/-- An argument has a word if it is free of NUL. -/
theorem isSome_scriptWord? {argument : String} :
    (scriptWord? argument).isSome ↔ '\x00' ∉ argument.toList := by
  unfold scriptWord?
  split
  · next hvariable =>
    rw [hvariable]
    decide
  · exact Shell.isSome_word?

theorem isSome_mapM_scriptWord? : ∀ {arguments : List String},
    (arguments.mapM scriptWord?).isSome ↔ ∀ a ∈ arguments, '\x00' ∉ a.toList
  | [] => by simp
  | a :: arguments => by
      rw [List.forall_mem_cons, ← isSome_scriptWord?, ← isSome_mapM_scriptWord?, List.mapM_cons]
      cases scriptWord? a <;> cases arguments.mapM scriptWord? <;> simp

/-- **A script fails for a NUL** in one of its arguments, and else never. -/
theorem isSome_script? : (script? source target destination).isSome
    ↔ '\x00' ∉ source.pair.toList ∧ '\x00' ∉ destination.pair.toList ∧ '\x00' ∉ target.toList := by
  have hwords : (script? source target destination).isSome
      ↔ ∀ a ∈ syncArguments loopVariable source target destination, '\x00' ∉ a.toList := by
    rw [← isSome_mapM_scriptWord?, script?, commandWords?]
    cases (syncArguments loopVariable source target destination).mapM scriptWord? <;> simp
  rw [hwords]
  simp [syncArguments, loopVariable]

/-- **The lines of a script** behind its head: one command, and the end of the loop. -/
theorem commands?_of_line {words : List String} (value : Shell.Variables)
    (htarget : target ≠ loopVariable)
    (h : commandWords? source target destination = some words) :
    Shell.commands? value (" ".intercalate words ++ "\ndone").toList
      = some [tool :: syncArguments (value "repo") source target destination, ["done"]] := by
  obtain ⟨hwords, hread⟩ := allRead_commandWords? htarget h
  have hdone : Shell.Reads value "done".toList "done".toList :=
    Shell.reads_bareText (by decide) (by decide)
  have htext : " ".intercalate words ++ "\ndone" = Shell.unlines [words, ["done"]] := by
    simp [Shell.unlines, String.append_assoc]
  rw [htext]
  exact Shell.commands?_lines (.cons hread (.cons (.cons hdone .nil) .nil)) (by simp [hwords])
    (List.cons_ne_nil _ _)

end CopyTool

/-! ## The job -/

namespace CopyJob

/-- A pair is free of NUL if both its parts are. -/
theorem nul_not_mem_pair {c : Credentials} (husername : '\x00' ∉ c.username.toList)
    (hpassword : '\x00' ∉ c.password.toList) : '\x00' ∉ c.pair.toList := by
  simp [Credentials.pair, husername, hpassword]

/-- **A script has one command**, whatever the credentials, the host and the project are. For a
rule of the copy tool with a schedule, between registries whose texts are free of NUL, a job is
built. Its container runs the fixed head of the loop, a line, and the end of the loop. A shell
reads what is behind the head as two commands: the end of the loop, and before it one command of
twelve words. Of these only the eleventh depends on a variable: it is the value of `repo`, which is
not split, whatever it holds. -/
theorem build_one_command {settings : JobSettings} {rule : Rule} {source destination : Registry}
    {repositories : List Repository} {schedule : String} (htransport : rule.transport = .copyTool)
    (hschedule : rule.trigger.schedule = some schedule)
    (htexts : ∀ s ∈ [source.credentials.username, source.credentials.password,
      destination.credentials.username, destination.credentials.password, destination.host,
      rule.project], '\x00' ∉ s.toList) :
    ∃ line : String,
      build settings rule source destination repositories
        = .ok ⟨configMapFor settings rule source repositories,
            cronJobFor settings rule schedule (CopyTool.loopHead ++ line ++ "\ndone")⟩
      ∧ ∀ value : Shell.Variables, Shell.commands? value (line ++ "\ndone").toList
        = some [["skopeo", "sync", "--src", "docker", "--dest", "docker",
              "--src-creds", source.credentials.username ++ ":" ++ source.credentials.password,
              "--dest-creds",
              destination.credentials.username ++ ":" ++ destination.credentials.password,
              value "repo", destination.host ++ "/" ++ rule.project],
            ["done"]] := by
  simp only [List.forall_mem_cons, List.not_mem_nil, false_imp_iff, implies_true,
    and_true] at htexts
  obtain ⟨hsourceName, hsourceWord, hname, hword, hhost, hproject⟩ := htexts
  have htarget : '\x00' ∉ (destinationOf destination rule).toList := by
    simp [destinationOf, hhost, hproject]
  obtain ⟨script, hscript⟩ := Option.isSome_iff_exists.1 (CopyTool.isSome_script?.2
    ⟨nul_not_mem_pair hsourceName hsourceWord, nul_not_mem_pair hname hword, htarget⟩)
  obtain ⟨words, hwords, hline⟩ := Option.bind_eq_some_iff.1 hscript
  obtain rfl := Option.some.inj hline
  refine ⟨" ".intercalate words, ?_, fun value =>
    CopyTool.commands?_of_line value (destinationOf_ne_loopVariable destination rule) hwords⟩
  rw [build, if_neg (not_not_intro htransport), hschedule, scriptFor, hscript]
  rfl

/-- A registry whose credentials would end a word, expand a variable and start a command. -/
def quotedEdge : Registry :=
  ⟨"edge", "https://edge.example.com", ⟨"eve'\n", "\"$repo\"; $(id) `^é"⟩, .harbor, .leaf,
    ⟨false, none⟩, .empty⟩

theorem build_one_command_quoted : ∃ line : String,
    build .standard pullRule (pullBackends[0]).registry quotedEdge []
      = .ok ⟨configMapFor .standard pullRule (pullBackends[0]).registry [],
          cronJobFor .standard pullRule "*/10 * * * *" (CopyTool.loopHead ++ line ++ "\ndone")⟩
    ∧ ∀ value : Shell.Variables, Shell.commands? value (line ++ "\ndone").toList
      = some [["skopeo", "sync", "--src", "docker", "--dest", "docker",
            "--src-creds", "admin:it's ^ $1", "--dest-creds", "eve'\n:\"$repo\"; $(id) `^é",
            value "repo", "edge.example.com/os"], ["done"]] :=
  build_one_command rfl (by decide +kernel) (by decide +kernel)

end CopyJob

end RegistryFleet
