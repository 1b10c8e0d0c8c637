import RegistryFleet.Topology.Edge

/-!
# Topology/Trigger — when a rule runs

A trigger is kept as it was written. Its first word says what kind it is; behind `cron` and one
space stands the schedule.
-/

namespace RegistryFleet

/-- The leading word of a trigger. -/
inductive Keyword
  | cron
  | manual
  | eventBased
  /-- Anything else, also nothing. -/
  | other
  deriving DecidableEq, Repr

/-- A trigger, as it was written. -/
structure Trigger where
  text : String
  deriving DecidableEq, Repr

namespace Trigger

/-- The trigger of rules that react to pushed images. -/
def eventBased : Trigger := ⟨"event_based"⟩

/-- The kind of the word in front of the first space. -/
def keyword (t : Trigger) : Keyword :=
  match String.ofList (Text.before ' ' t.text.toList) with
  | "cron" => .cron
  | "manual" => .manual
  | "event_based" => .eventBased
  | _ => .other

/-- **The schedule** — what follows `cron` and a space, trimmed, unless it is blank. -/
def schedule (t : Trigger) : Option String :=
  match Text.cutAt? ' ' t.text.toList with
  | some (front, back) =>
    if front = "cron".toList then
      match Text.trimList back with
      | [] => none
      | trimmed => some (String.ofList trimmed)
    else none
  | none => none

end Trigger

/-- Settings of the topology. -/
structure TopologySettings where
  /-- The trigger of pull rules without a cron or manual declaration. -/
  fallbackPullTrigger : String
  deriving DecidableEq, Repr

/-- Without a declaration, leaves pull every ten minutes. -/
def TopologySettings.standard : TopologySettings := ⟨"cron */10 * * * *"⟩

/-- **The effective trigger** — a cron or manual declaration is taken verbatim; anything else gives
way to events for a push and to the fallback for a pull. -/
def Trigger.resolve (settings : TopologySettings) (direction : Direction)
    (declared : Option String) : Trigger :=
  let written : Trigger := ⟨declared.getD ""⟩
  match written.keyword, direction with
  | .cron, _ | .manual, _ => written
  | _, .push => .eventBased
  | _, .pull => ⟨settings.fallbackPullTrigger⟩

/-- **The transport of a trigger** — events and manual starts are the registry's own; a schedule
follows the declared transport, the copy tool by default. -/
def Trigger.transport (t : Trigger) (declared : Option Transport) : Transport :=
  match t.keyword with
  | .manual | .eventBased => .native
  | .cron => declared.getD .copyTool
  | .other => .copyTool

end RegistryFleet
