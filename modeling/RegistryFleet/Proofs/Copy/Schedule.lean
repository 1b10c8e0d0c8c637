import RegistryFleet.Proofs.Copy.Script
import RegistryFleet.Proofs.Topology.Trigger

/-!
# Proofs/Copy/Schedule — from the trigger of a project to the schedule of a job

A rule takes its trigger from its project, its transport from the trigger, and its job the schedule
from the trigger again. The three readings meet in one condition: a job is built for the copy tool,
for a `cron` with a schedule behind it, and for texts that can be quoted.

* `CopyJob.build_ok_iff` — when a job is built, and `CopyJob.schedule_of_build` its schedule.
* `Rule.plan_to_job` — from the declared trigger to the job.
-/

namespace RegistryFleet

open Text (HasFirstWord Trimmed allBlank)

namespace CopyJob

variable {settings : JobSettings} {rule : Rule} {source destination : Registry}
  {repositories : List Repository}

/-- **The texts of a job that are quoted**: the credentials of both registries, and where images are
copied to. -/
def quotedTexts (rule : Rule) (source destination : Registry) : List String :=
  [source.credentials.username, source.credentials.password, destination.credentials.username,
    destination.credentials.password, destinationOf destination rule]

theorem nul_not_mem_pair_iff {c : Credentials} : '\x00' ∉ c.pair.toList
    ↔ '\x00' ∉ c.username.toList ∧ '\x00' ∉ c.password.toList := by
  simp [Credentials.pair]

/-- A job has a script if its texts can be quoted. -/
theorem isSome_script?_iff :
    (CopyTool.script? source.credentials (destinationOf destination rule)
        destination.credentials).isSome
      ↔ ∀ s ∈ quotedTexts rule source destination, '\x00' ∉ s.toList := by
  rw [CopyTool.isSome_script?, nul_not_mem_pair_iff, nul_not_mem_pair_iff]
  simp only [quotedTexts, List.forall_mem_cons, List.not_mem_nil, false_imp_iff, implies_true,
    and_true, and_assoc]

/-- **When a job is built.** -/
theorem build_ok_iff : (∃ job, build settings rule source destination repositories = .ok job)
    ↔ rule.transport = .copyTool
      ∧ (∃ text, rule.trigger.text = "cron " ++ text ∧ allBlank text = false)
      ∧ ∀ s ∈ quotedTexts rule source destination, '\x00' ∉ s.toList := by
  constructor
  · rintro ⟨job, hjob⟩
    obtain ⟨schedule, script, hschedule, hscript, -⟩ := of_build hjob
    obtain ⟨text, htext, hblank, -⟩ := Trigger.schedule_eq_some_iff.1 hschedule
    refine ⟨?_, ⟨text, htext, hblank⟩, isSome_script?_iff.1 (Option.isSome_of_eq_some hscript)⟩
    by_contra htransport
    rw [build, if_pos htransport] at hjob
    cases hjob
  · rintro ⟨htransport, ⟨text, htext, hblank⟩, htexts⟩
    have hschedule : rule.trigger.schedule = some (Text.trim text) :=
      Trigger.schedule_eq_some_iff.2 ⟨text, htext, hblank, rfl⟩
    obtain ⟨script, hscript⟩ := Option.isSome_iff_exists.1 (isSome_script?_iff.2 htexts)
    refine ⟨⟨configMapFor settings rule source repositories,
      cronJobFor settings rule (Text.trim text) script⟩, ?_⟩
    rw [build, if_neg (not_not_intro htransport), hschedule, scriptFor, hscript]
    rfl

/-- The schedule of a job is what stands behind `cron` and a space, trimmed. -/
theorem schedule_of_build {job : CopyJob} {text : String}
    (h : build settings rule source destination repositories = .ok job)
    (htext : rule.trigger.text = "cron " ++ text) :
    job.cronJob.spec.map CronSchedule.schedule = some (Text.trim text) := by
  obtain ⟨schedule, script, hschedule, -, rfl⟩ := of_build h
  obtain ⟨text', htext', -, rfl⟩ := Trigger.schedule_eq_some_iff.1 hschedule
  obtain rfl : text = text' := by
    simpa [← String.toList_inj] using htext.symm.trans htext'
  rfl

end CopyJob

namespace Rule

variable {settings : TopologySettings} {here there : Registry} {project : ProjectSpec} {rule : Rule}

/-- A rule that is planned has the trigger that its project comes to, and the transport that its
trigger comes to. -/
theorem trigger_of_plan (h : plan settings here there project = .ok (some rule)) :
    rule.trigger = .resolve settings rule.direction project.trigger
      ∧ rule.transport = rule.trigger.transport here.options.replication := by
  rw [plan_eq] at h
  cases hreplication : replication here.node there.node with
  | error e => simp [hreplication, Except.map] at h
  | ok direction? =>
    have hmap : direction?.map (fun direction => towards settings project direction here there)
        = some rule := by simpa [hreplication, Except.map] using h
    obtain ⟨direction, -, rfl⟩ := Option.map_eq_some_iff.1 hmap
    simp only [towards, and_self]

/-- **From the trigger of a project to the job of a rule.** A rule that is planned has the declared
trigger as it was written if its first word is `cron` or `manual`, and else the one for events to
push and the fallback to pull. It is carried out by the registries if the first word of that trigger
is `manual` or `event_based`, as the registry of the rule declares if it is `cron`, by the copy tool
without a declaration, and by the copy tool for any other word. A job is built for it just if it is
carried out by the copy tool, its trigger is `cron`, a space and a text that is not blank, and
neither the credentials of the registries nor the destination have a NUL; the schedule is then that
text, trimmed. With the standard fallback the first word is always known, and no rule pulls on
events. -/
theorem plan_to_job (h : plan settings here there project = .ok (some rule)) :
    ((∀ text, Trigger.Declared project.trigger text → rule.trigger.text = text)
        ∧ ((∀ text, ¬ Trigger.Declared project.trigger text) →
            rule.trigger.text = match rule.direction with
              | .push => "event_based"
              | .pull => settings.fallbackPullTrigger))
      ∧ ((HasFirstWord rule.trigger.text "manual" ∨ HasFirstWord rule.trigger.text "event_based" →
            rule.transport = .native)
        ∧ (HasFirstWord rule.trigger.text "cron" →
            rule.transport = here.options.replication.getD .copyTool)
        ∧ ((∀ word ∈ ["cron", "manual", "event_based"], ¬ HasFirstWord rule.trigger.text word) →
            rule.transport = .copyTool))
      ∧ (∀ jobSettings source destination repositories,
          ((∃ job, CopyJob.build jobSettings rule source destination repositories = .ok job)
            ↔ rule.transport = .copyTool
              ∧ (∃ text, rule.trigger.text = "cron " ++ text ∧ allBlank text = false)
              ∧ ∀ s ∈ CopyJob.quotedTexts rule source destination, '\x00' ∉ s.toList)
          ∧ ∀ job text, CopyJob.build jobSettings rule source destination repositories = .ok job →
              rule.trigger.text = "cron " ++ text →
              job.cronJob.spec.map CronSchedule.schedule = some (Text.trim text)
                ∧ Trimmed text (Text.trim text))
      ∧ (settings = .standard →
          (∃ word ∈ ["cron", "manual", "event_based"], HasFirstWord rule.trigger.text word)
          ∧ (rule.direction = .pull → ¬ HasFirstWord rule.trigger.text "event_based")) := by
  obtain ⟨htrigger, htransport⟩ := trigger_of_plan h
  refine ⟨⟨fun text htext => ?_, fun hnone => ?_⟩,
    ⟨fun hword => ?_, fun hword => ?_, fun hnone => ?_⟩,
    fun jobSettings source destination repositories => ⟨CopyJob.build_ok_iff,
      fun job text hjob htext => ⟨CopyJob.schedule_of_build hjob htext, Text.trimmed_trim text⟩⟩,
    ?_⟩
  · rw [htrigger, Trigger.resolve_of_declared htext]
  · rw [htrigger, Trigger.resolve_of_not_declared hnone]
    cases rule.direction <;> rfl
  · rw [htransport, Trigger.transport_of_native hword]
  · rw [htransport, Trigger.transport_of_cron hword]
  · rw [htransport, Trigger.transport_of_unknown hnone]
  · rintro rfl
    obtain ⟨hknown, hpull⟩ := Trigger.known_of_resolve_standard rule.direction project.trigger
    rw [← htrigger] at hknown hpull
    refine ⟨?_, fun hdirection => ?_⟩
    · by_contra hnone
      exact hknown (Trigger.keyword_eq_other_iff.2 fun word hword h => hnone ⟨word, hword, h⟩)
    · rw [← Trigger.keyword_eq_iff (k := .eventBased) rfl]
      exact hpull hdirection

/-- The edge copies a project from the hub every night. -/
theorem plan_to_job_nightly : ∃ rule,
    plan .standard mixedFleet[1] mixedFleet[0]
        ⟨"os", .everywhere, [], [], some "cron  0 3 * * *\n"⟩ = .ok (some rule)
      ∧ rule.trigger.text = "cron  0 3 * * *\n" ∧ rule.transport = .copyTool
      ∧ ∃ job, CopyJob.build .standard rule mixedFleet[0] mixedFleet[1] [] = .ok job
        ∧ job.cronJob.spec.map CronSchedule.schedule = some "0 3 * * *" := by
  have hcron : HasFirstWord "cron  0 3 * * *\n" "cron" := .inr ⟨" 0 3 * * *\n", by decide⟩
  have hplan : plan .standard mixedFleet[1] mixedFleet[0]
      ⟨"os", .everywhere, [], [], some "cron  0 3 * * *\n"⟩
      = .ok (some ⟨"os", "edge", "hub", .pull, ⟨"cron  0 3 * * *\n"⟩, .copyTool⟩) := by
    decide +kernel
  obtain ⟨⟨hdeclared, -⟩, ⟨-, htransport, -⟩, hbuild, -⟩ := plan_to_job hplan
  have htext := hdeclared _ ⟨rfl, .inl hcron⟩
  obtain ⟨hbuilt, hschedule⟩ := hbuild .standard mixedFleet[0] mixedFleet[1] []
  obtain ⟨job, hjob⟩ := hbuilt.2
    ⟨htransport hcron, ⟨" 0 3 * * *\n", by decide, by decide⟩, by decide +kernel⟩
  have htrimmed : Text.trim " 0 3 * * *\n" = "0 3 * * *" := by decide +kernel
  obtain ⟨hspec, -⟩ := hschedule job " 0 3 * * *\n" hjob (by decide)
  exact ⟨_, hplan, htext, htransport hcron, job, hjob, htrimmed ▸ hspec⟩

end Rule

end RegistryFleet
