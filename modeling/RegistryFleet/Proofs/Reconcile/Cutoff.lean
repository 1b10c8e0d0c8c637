import RegistryFleet.Proofs.Reconcile.Handling
import RegistryFleet.Proofs.Reconcile.MemberPhase
import RegistryFleet.Proofs.Reconcile.ProjectPhase
import RegistryFleet.Proofs.Reconcile.Report

/-!
# Proofs/Reconcile/Cutoff — what an interruption leaves of a run

Every action is asked about on its own, so from the instant of a signal on none is started. An
action that takes longer than that was started before: its unit has turns on both sides of the
instant, and only units in flight at that instant have. Each of them is in the middle of one action
at most.

* `Handling.countP_late` — a unit completes one action late at most.
* `Schedule.Orderly.straddling_le` — no more units have turns on both sides than may be in flight.
* `World.reconcile_interrupted` — an interrupted run.
-/

namespace RegistryFleet

variable {ω α : Type}

/-- From the instant of a signal on a signal is seen. -/
theorem Signals.lt_of_at?_eq_none {s : Signals} {T instant : Nat} (hT : s.at? T ≠ none)
    (h : s.at? instant = none) : instant < T :=
  Nat.lt_of_not_le fun hlate => hT (at?_eq_none_of_le h hlate)

/-! ## Handlings before and after an instant -/

namespace Handling

/-- **Was the action taken up before an instant?** -/
def BegunBefore (T : Nat) (a : Handling ω α) : Prop := ∃ q ∈ a.turns.head?, q.instant < T

/-- **Was the action started, and completed at an instant or later?** -/
def late (T : Nat) (a : Handling ω α) : Bool :=
  a.started && a.turns.getLast?.any fun t => T ≤ t.instant

variable {machine : Machine ω} {signals : Signals} {p : Profile} {dry : Bool} {s s' : Progress}
  {T : Nat} {a : Handling ω α} {handlings : List (Handling ω α)}

theorem exists_of_late (h : a.late T = true) :
    a.started = true ∧ ∃ t ∈ a.turns, T ≤ t.instant := by
  simp only [late, Bool.and_eq_true, Option.any_eq_true, decide_eq_true_eq] at h
  obtain ⟨hstarted, t, hlast, hlate⟩ := h
  exact ⟨hstarted, t, List.mem_of_getLast? hlast, hlate⟩

/-- **A started action has a question of its own**, which no signal answers. -/
theorem Course.asks (h : Course machine signals p dry s a s') (hstarted : a.started = true) :
    ∃ q ∈ a.turns.head?, q.Asks signals none := by
  cases h with
  | left h | refused h hq => cases hstarted
  | planned h hq | blocked h hq | failed h hq | succeeded h hq => exact ⟨_, rfl, hq⟩

/-- After a signal no action is started. -/
theorem InOrder.begunBefore (h : InOrder machine signals p dry s handlings)
    (hT : signals.at? T ≠ none) : ∀ a ∈ handlings, a.started = true → a.BegunBefore T := by
  induction h with
  | nil s => exact List.forall_mem_nil _
  | cons hcourse _ ih =>
    refine List.forall_mem_cons.2 ⟨fun hstarted => ?_, ih⟩
    obtain ⟨q, hq, hasks⟩ := hcourse.asks hstarted
    exact ⟨q, hq, Signals.lt_of_at?_eq_none hT hasks.seen⟩

/-- **A unit completes one action late at most**: the next one would be begun later still. -/
theorem countP_late (hbegun : ∀ a ∈ handlings, a.started = true → a.BegunBefore T)
    (hsorted : (handlings.flatMap turns).Pairwise fun t t' => t.instant ≤ t'.instant) :
    handlings.countP (late T) ≤ 1 := by
  induction handlings with
  | nil => exact Nat.zero_le 1
  | cons a rest ih =>
    obtain ⟨-, hrest⟩ := List.forall_mem_cons.1 hbegun
    rw [List.flatMap_cons, List.pairwise_append] at hsorted
    obtain ⟨-, hsorted, hacross⟩ := hsorted
    rw [List.countP_cons]
    by_cases ha : a.late T = true
    · have hnone : rest.countP (late T) = 0 := by
        refine List.countP_eq_zero.2 fun b hb hlate => ?_
        obtain ⟨-, t, ht, hTt⟩ := exists_of_late ha
        obtain ⟨q, hq, hqT⟩ := hrest b hb (exists_of_late hlate).1
        have hle := hacross t ht q (List.mem_flatMap.2 ⟨b, hb, List.mem_of_mem_head? hq⟩)
        omega
      rw [hnone, if_pos ha]
    · rw [if_neg ha]
      exact ih hrest hsorted

end Handling

/-! ## Units with turns on both sides of an instant -/

namespace Schedule

variable {machine : Machine ω} {signals : Signals} {backendOf : Nat → Nat} {s s' : Schedule ω α}
  {T : Nat}

/-- No step puts more units in flight. -/
theorem length_flights_next (htracked : s.Tracked)
    (hs : s.next? machine signals backendOf = some s') : s'.flights.length ≤ s.flights.length := by
  rcases next_cases htracked hs with ⟨t, htaken, -⟩ | ⟨hclosed, -⟩
  · simpa using htaken.flights.length_eq.le
  · obtain ⟨u, a, rest, hfirst, -, -, hwaiting⟩ := hclosed.first
    have hbefore : s.flights.length = rest.length + 1 := by
      simpa using congrArg List.length hfirst
    rcases hwaiting with ⟨-, -, hflights⟩ | ⟨v, -, hflights⟩
    · have hafter : s'.flights.length = rest.length := by
        simpa using congrArg List.length hflights
      omega
    · have hafter : s'.flights.length = rest.length + 1 := by
        simpa using hflights.length_eq
      omega

/-- **The unit has begun** as far as the instant is concerned: it is in flight, or will have a turn
before then. -/
def Early (machine : Machine ω) (signals : Signals) (backendOf : Nat → Nat) (T : Nat)
    (s : Schedule ω α) (u : Nat) : Prop :=
  u ∈ s.flights.map Flight.unit
    ∨ ∃ t ∈ s.turns machine signals backendOf, t.unit = u ∧ t.instant < T

/-- The unit of a turn is in flight before and after it. -/
theorem Early.of_taken {t : Turn ω α} {u : Nat} (h : Early machine signals backendOf T s u)
    (htaken : Taken machine signals backendOf s s' t)
    (hturns : s.turns machine signals backendOf = t :: s'.turns machine signals backendOf) :
    Early machine signals backendOf T s' u := by
  rcases h with hflight | ⟨t', ht', hunit, hlt⟩
  · exact .inl (htaken.flights.mem_iff.2 hflight)
  · rw [hturns] at ht'
    rcases List.mem_cons.1 ht' with rfl | ht'
    · obtain ⟨rest, hfirst⟩ := htaken.first
      refine .inl (htaken.flights.mem_iff.2 ?_)
      rw [hfirst, hunit]
      exact List.mem_cons_self
    · exact .inr ⟨t', ht', hunit, hlt⟩

/-- A unit that still has a turn is not the one that ends. -/
theorem Early.of_closed {u : Nat} (h : Early machine signals backendOf T s u)
    (hlater : Orderly signals s') (hclosed : Closed s s')
    (hturns : s.turns machine signals backendOf = s'.turns machine signals backendOf)
    (hmore : ∃ t ∈ s'.turns machine signals backendOf, t.unit = u) :
    Early machine signals backendOf T s' u := by
  obtain ⟨v, a, rest, hfirst, hv, -, hwaiting⟩ := hclosed.first
  rcases h with hflight | hearly
  · have hne : u ≠ v := by
      rintro rfl
      obtain ⟨t, ht, hunit⟩ := hmore
      exact hlater.ne_of_done (hclosed.works ▸ hv) t ht hunit
    rw [hfirst] at hflight
    have hrest : u ∈ rest := (List.mem_cons.1 hflight).resolve_left hne
    rcases hwaiting with ⟨-, -, hflights⟩ | ⟨v', -, hflights⟩
    · exact .inl (hflights ▸ hrest)
    · exact .inl (hflights.mem_iff.2 (List.mem_cons_of_mem v' hrest))
  · exact .inr (hturns ▸ hearly)

/-- **No more units have turns on both sides of an instant than are in flight.** -/
theorem Orderly.straddling_le (h : Orderly signals s) {us : List Nat} (hnodup : us.Nodup)
    (hlate : ∀ u ∈ us, ∃ t ∈ s.turns machine signals backendOf, t.unit = u ∧ T ≤ t.instant)
    (hearly : ∀ u ∈ us, Early machine signals backendOf T s u) :
    us.length ≤ s.flights.length := by
  induction s using Schedule.run.induct machine signals backendOf with
  | case1 s hs =>
    rw [turns_of_next?_eq_none hs] at hlate
    have hnone : us = [] := List.eq_nil_iff_forall_not_mem.2 fun u hu => by simpa using hlate u hu
    rw [hnone]
    exact Nat.zero_le _
  | case2 s s' hs ih =>
    have hlater := h.next hs
    rcases next_cases h.tracked hs with ⟨t, htaken, hturns⟩ | ⟨hclosed, hturns⟩
    · by_cases hTt : T ≤ t.instant
      · -- From here on every turn is late, so all of the units are in flight.
        have hall : ∀ t' ∈ s.turns machine signals backendOf, T ≤ t'.instant := by
          have hsorted : (t :: s'.turns machine signals backendOf).Pairwise
              fun t t' => t.instant ≤ t'.instant := hturns ▸ h.pairwise_turns
          rw [hturns]
          exact List.forall_mem_cons.2
            ⟨hTt, fun t' ht' => Nat.le_trans hTt (List.rel_of_pairwise_cons hsorted ht')⟩
        have hsubset : us ⊆ s.flights.map Flight.unit := fun u hu => by
          rcases hearly u hu with hflight | ⟨t', ht', -, hlt⟩
          · exact hflight
          · exact absurd (hall t' ht') (Nat.not_le_of_lt hlt)
        simpa using (List.subperm_of_subset hnodup hsubset).length_le
      · have hsame : s'.flights.length = s.flights.length := by
          simpa using htaken.flights.length_eq
        rw [← hsame]
        refine ih hlater (fun u hu => ?_) fun u hu => (hearly u hu).of_taken htaken hturns
        obtain ⟨t', ht', hunit, hTt'⟩ := hlate u hu
        rw [hturns] at ht'
        rcases List.mem_cons.1 ht' with rfl | ht'
        · exact absurd hTt' hTt
        · exact ⟨t', ht', hunit, hTt'⟩
    · rw [hturns] at hlate
      refine Nat.le_trans (ih hlater hlate fun u hu => ?_) (length_flights_next h.tracked hs)
      obtain ⟨t, ht, hunit, -⟩ := hlate u hu
      exact (hearly u hu).of_closed hlater hclosed hturns ⟨t, ht, hunit⟩

end Schedule

/-! ## The units of a phase -/

/-- **What is known of a unit after a run**: its result, and how its actions were handled. -/
structure UnitRecord (ω : Type) where
  result : UnitResult
  handlings : List (Handling ω UnitResult)

/-- **A unit that is cut off** at an instant. -/
structure UnitRecord.CutOff (machine : Machine ω) (signals : Signals) (T backend : Nat)
    (p : Profile) (dry : Bool) (project : Option String) (plan : List Action → Prop)
    (turns : List (Turn ω UnitResult)) (record : UnitRecord ω) : Prop where
  onBackend : ∀ t ∈ turns, t.backend = backend
  /-- Every action that is started is performed to its end. -/
  divided : Handling.Divide machine signals p dry project plan turns record.result record.handlings
  /-- No action is started from then on. -/
  begun : ∀ a ∈ record.handlings, a.started = true → a.BegunBefore T
  /-- A unit that had not begun by then is reported as not reconciled, and changes nothing. -/
  leftOut : (∀ t ∈ turns, T ≤ t.instant) →
    (∃ i : Interruption,
        record.result = .plain p.registry.name project (.notReconciled i.reason))
      ∧ ∀ t ∈ turns, t.world = t.origin

namespace UnitRecord.CutOff

variable {machine : Machine ω} {signals : Signals} {T backend : Nat} {p : Profile} {dry : Bool}
  {project : Option String} {plan : List Action → Prop} {turns : List (Turn ω UnitResult)}
  {record : UnitRecord ω}

/-- The turns of the actions are turns of the unit, in the same order. -/
theorem sublist (h : record.CutOff machine signals T backend p dry project plan turns) :
    (record.handlings.flatMap Handling.turns).Sublist turns := by
  obtain ⟨opening, hturns, -⟩ := h.divided.turns
  rw [hturns]
  exact List.sublist_append_right opening _

theorem countP_late (h : record.CutOff machine signals T backend p dry project plan turns)
    (hsorted : turns.Pairwise fun t t' => t.instant ≤ t'.instant) :
    record.handlings.countP (Handling.late T) ≤ 1 :=
  Handling.countP_late h.begun (hsorted.sublist h.sublist)

/-- A unit that completes an action late has turns on both sides of the instant. -/
theorem straddles (h : record.CutOff machine signals T backend p dry project plan turns)
    {a : Handling ω UnitResult} (ha : a ∈ record.handlings) (hlate : a.late T = true) :
    (∃ t ∈ turns, t.instant < T) ∧ ∃ t ∈ turns, T ≤ t.instant := by
  have hmem : ∀ t ∈ a.turns, t ∈ turns := fun t ht =>
    h.sublist.subset (List.mem_flatMap.2 ⟨a, ha, ht⟩)
  obtain ⟨hstarted, t, ht, hTt⟩ := Handling.exists_of_late hlate
  obtain ⟨q, hq, hqT⟩ := h.begun a ha hstarted
  exact ⟨⟨q, hmem q (List.mem_of_mem_head? hq), hqT⟩, t, hmem t ht, hTt⟩

end UnitRecord.CutOff

/-- **How a unit of a run begins**: it asks, and is reported as not reconciled if it is told to
stop. -/
def Work.Opens (registry : String) (project : Option String) (w : Work UnitResult) : Prop :=
  ∃ next, w = .check next
    ∧ ∀ i, next (some i) = .done (.plain registry project (.notReconciled i.reason))

namespace Schedule

variable {machine : Machine ω} {signals : Signals} {concurrent now T : Nat}

/-- A unit that asks only after the signal ends as it is told to, and does nothing. -/
theorem leftOut_of_opens {w : Work UnitResult} {registry : String} {project : Option String}
    {turns : List (Turn ω UnitResult)} {r : UnitResult} (hT : signals.at? T ≠ none)
    (hopens : w.Opens registry project) (h : Turn.Leads machine signals w turns (.done r))
    (hlate : ∀ t ∈ turns, T ≤ t.instant) :
    (∃ i : Interruption, r = .plain registry project (.notReconciled i.reason))
      ∧ ∀ t ∈ turns, t.world = t.origin := by
  obtain ⟨next, rfl, hnext⟩ := hopens
  obtain ⟨q, answer, rest, rfl, hq, hrest⟩ := h.of_check
  cases answer with
  | none =>
    have hlt := Signals.lt_of_at?_eq_none hT hq.seen
    have hle := hlate q List.mem_cons_self
    omega
  | some i =>
    rw [hnext] at hrest
    obtain ⟨rfl, hr⟩ := hrest.of_done
    exact ⟨⟨i, Work.done.inj hr⟩, by simpa using hq.still⟩

variable {jobs : List (Job UnitResult)} {world : ω}

theorem length_flights_beginMany (signals : Signals) (latency : Nat → Nat) :
    ∀ (count : Nat) (s : Schedule ω α),
      (beginMany signals latency count s).flights.length ≤ s.flights.length + count
  | 0, _ => Nat.le_refl _
  | count + 1, s => by
      have hrest := length_flights_beginMany signals latency count (beginNext signals latency s)
      have hfirst : (beginNext signals latency s).flights.length ≤ s.flights.length + 1 := by
        rcases beginNext_cases signals latency s with ⟨-, hs⟩ | ⟨f, rest, -, -, -, hs⟩
        · rw [hs]
          exact Nat.le_succ _
        · rw [hs]
          exact Nat.le_of_eq (length_enqueue f s.flights)
      rw [beginMany]
      omega

/-- A phase holds no more units in flight than it may. -/
theorem length_flights_begun :
    (begun machine signals concurrent now jobs world).flights.length ≤ concurrent := by
  have hlength := length_flights_beginMany signals
    (fun u => machine.latency (Job.backendOf jobs u)) (min concurrent jobs.length)
    (start jobs now world)
  refine Nat.le_trans hlength ?_
  rw [show (start jobs now world).flights.length = 0 from rfl]
  omega

/-- The turns of a phase lie between its beginning and its end. -/
theorem instant_phaseTurns {t : Turn ω UnitResult}
    (ht : t ∈ phaseTurns machine signals concurrent now jobs world) :
    now ≤ t.instant ∧ t.instant ≤ (phase machine signals concurrent now jobs world).now := by
  have hbegun : (begun machine signals concurrent now jobs world).now = now := now_beginMany _ _ _
  obtain ⟨hle, hend⟩ := instant_turns _ wellBegun.1 wellBegun.2 t ht
  exact ⟨hbegun ▸ hle, hend⟩

/-- **A phase is in order** from the start. -/
theorem orderly_begun (hc : 0 < concurrent) :
    Orderly signals (begun machine signals concurrent now jobs world) :=
  ⟨wellBegun.1, busy_start _ now world hc, wellBegun.2⟩

/-- **The turns of each unit of a phase** follow its work to its value. -/
theorem phase_leads (machine : Machine ω) (signals : Signals) (now : Nat)
    (jobs : List (Job UnitResult)) (world : ω) (hc : 0 < concurrent) :
    ∃ vals, (phase machine signals concurrent now jobs world).values.Perm vals
      ∧ vals.length = jobs.length
      ∧ ∀ u job r, jobs[u]? = some job → vals[u]? = some r →
          Turn.Leads machine signals job.work
            (Turn.ofUnit u (phaseTurns machine signals concurrent now jobs world)) (.done r) := by
  obtain ⟨vals, hworks, hvalues⟩ := phase_ends machine signals now jobs world hc
  have horderly : Orderly signals (begun machine signals concurrent now jobs world) :=
    orderly_begun hc
  have hlength : (phase machine signals concurrent now jobs world).works.length = jobs.length := by
    rw [phase_eq]
    refine horderly.length_works_run.trans ?_
    rw [keeps_begun.1, List.length_map]
  refine ⟨vals, hvalues, by rwa [hworks, List.length_map] at hlength, fun u job r hjob hr => ?_⟩
  have hu : (begun machine signals concurrent now jobs world).works[u]? = some job.work := by
    rw [keeps_begun.1, List.getElem?_map, hjob]
    rfl
  obtain ⟨a, hend, hleads⟩ := horderly.leads_turns hu
  change (phase machine signals concurrent now jobs world).works[u]? = _ at hend
  rw [hworks, List.getElem?_map, hr] at hend
  obtain rfl := Work.done.inj (Option.some.inj hend)
  exact hleads

/-- All turns of a unit of a phase are made on its backend. -/
theorem backend_ofUnit (hc : 0 < concurrent) {u : Nat} {job : Job UnitResult}
    (hjob : jobs[u]? = some job) :
    ∀ t ∈ Turn.ofUnit u (phaseTurns machine signals concurrent now jobs world),
      t.backend = job.backend := by
  intro t ht
  obtain ⟨ht, hunit⟩ := Turn.mem_ofUnit.1 ht
  rw [(orderly_begun hc).backend_turns t ht, hunit, Job.backendOf_eq hjob]

/-- **The records of a phase**, one for each of its units. -/
theorem phase_records (hc : 0 < concurrent) {P : Nat → UnitRecord ω → Prop}
    (hP : ∀ u job r turns, jobs[u]? = some job →
      turns = Turn.ofUnit u (phaseTurns machine signals concurrent now jobs world) →
      (∀ t ∈ turns, t.backend = job.backend) →
      Turn.Leads machine signals job.work turns (.done r) → ∃ handlings, P u ⟨r, handlings⟩) :
    ∃ records : List (UnitRecord ω),
      (phase machine signals concurrent now jobs world).values.Perm
          (records.map UnitRecord.result)
        ∧ records.length = jobs.length ∧ ∀ u record, records[u]? = some record → P u record := by
  obtain ⟨vals, hvalues, hlength, hleads⟩ := phase_leads machine signals now jobs world hc
  have hunits : ∀ u, ∃ handlings, ∀ r, vals[u]? = some r → P u ⟨r, handlings⟩ := by
    intro u
    cases hr : vals[u]? with
    | none => exact ⟨[], fun r hr' => nomatch hr'⟩
    | some r =>
      have hlt : u < jobs.length := hlength ▸ (List.getElem?_eq_some_iff.1 hr).1
      have hjob := List.getElem?_eq_getElem hlt
      obtain ⟨handlings, hhandlings⟩ :=
        hP u jobs[u] r _ hjob rfl (backend_ofUnit hc hjob) (hleads u jobs[u] r hjob hr)
      exact ⟨handlings, fun r' hr' => Option.some.inj hr' ▸ hhandlings⟩
  choose handlings hhandlings using hunits
  refine ⟨vals.mapIdx fun u r => ⟨r, handlings u⟩, ?_, ?_, fun u record hrecord => ?_⟩
  · have hresults : (vals.mapIdx fun u r => (⟨r, handlings u⟩ : UnitRecord ω)).map
        UnitRecord.result = vals :=
      List.ext_getElem? fun u => by
        rw [List.getElem?_map, List.getElem?_mapIdx, Option.map_map]
        exact congrFun Option.map_id _
    rwa [hresults]
  · rw [List.length_mapIdx, hlength]
  · rw [List.getElem?_mapIdx] at hrecord
    obtain ⟨r, hr, rfl⟩ := Option.map_eq_some_iff.1 hrecord
    exact hhandlings u r hr

/-- Actions that are completed late, where no unit completes more than one. -/
theorem countP_flatMap_late {records : List (UnitRecord ω)}
    (h : ∀ record ∈ records, record.handlings.countP (Handling.late T) ≤ 1) :
    (records.flatMap UnitRecord.handlings).countP (Handling.late T)
      ≤ records.countP fun record => record.handlings.any (Handling.late T) := by
  induction records with
  | nil => exact Nat.le_refl 0
  | cons record rest ih =>
    obtain ⟨hfirst, hrest⟩ := List.forall_mem_cons.1 h
    have hlater := ih hrest
    rw [List.flatMap_cons, List.countP_append, List.countP_cons]
    cases hany : record.handlings.any (Handling.late T) with
    | true =>
      rw [if_pos rfl]
      omega
    | false =>
      have hnone : record.handlings.countP (Handling.late T) = 0 := by
        simpa [List.countP_eq_zero] using hany
      rw [hnone, Nat.zero_add]
      exact hlater

/-- The units that complete an action late. -/
theorem exists_lateUnits (T : Nat) (records : List (UnitRecord ω)) :
    ∃ us : List Nat, us.Nodup
      ∧ us.length = records.countP (fun record => record.handlings.any (Handling.late T))
      ∧ ∀ u ∈ us, ∃ record, records[u]? = some record
          ∧ ∃ a ∈ record.handlings, a.late T = true := by
  let isLate (record : UnitRecord ω) : Bool := record.handlings.any (Handling.late T)
  refine ⟨(List.range records.length).filter fun u => (records[u]?).any isLate,
    List.nodup_range.filter _, ?_, fun u hu => ?_⟩
  · calc ((List.range records.length).filter fun u => (records[u]?).any isLate).length
        = ((List.range records.length).map fun u => records[u]?).countP
            (Option.any isLate) := by
          rw [← List.countP_eq_length_filter, List.countP_map]
          rfl
      _ = records.countP isLate := by
          rw [map_getElem?_range, List.countP_map]
          rfl
  · obtain ⟨record, hrecord, hlate⟩ := (Option.any_eq_true _ _).1 (List.mem_filter.1 hu).2
    exact ⟨record, hrecord, List.any_eq_true.1 hlate⟩

/-- **All units of a course are cut off** at an instant. -/
def AllCutOff (machine : Machine ω) (signals : Signals) (T : Nat)
    (course : List (Turn ω UnitResult)) (records : List (UnitRecord ω)) : Prop :=
  ∀ u record, records[u]? = some record → ∃ backend p dry project plan,
    UnitRecord.CutOff machine signals T backend p dry project plan (Turn.ofUnit u course) record

/-- A unit that completes an action late has turns on both sides of the instant. -/
theorem AllCutOff.straddles {course : List (Turn ω UnitResult)} {records : List (UnitRecord ω)}
    (h : AllCutOff machine signals T course records) {u : Nat} {record : UnitRecord ω}
    (hrecord : records[u]? = some record) {a : Handling ω UnitResult}
    (ha : a ∈ record.handlings) (hlate : a.late T = true) :
    (∃ t ∈ course, t.unit = u ∧ t.instant < T) ∧ ∃ t ∈ course, t.unit = u ∧ T ≤ t.instant := by
  obtain ⟨backend, p, dry, project, plan, hcut⟩ := h u record hrecord
  obtain ⟨⟨t, ht, hlt⟩, t', ht', hle⟩ := hcut.straddles ha hlate
  obtain ⟨ht, hunit⟩ := Turn.mem_ofUnit.1 ht
  obtain ⟨ht', hunit'⟩ := Turn.mem_ofUnit.1 ht'
  exact ⟨⟨t, ht, hunit, hlt⟩, t', ht', hunit', hle⟩

/-- **A phase completes no more actions late** than units may be in flight. -/
theorem countP_late_phase (hc : 0 < concurrent) {records : List (UnitRecord ω)}
    (hcut : AllCutOff machine signals T (phaseTurns machine signals concurrent now jobs world)
      records) :
    (records.flatMap UnitRecord.handlings).countP (Handling.late T) ≤ concurrent := by
  have horderly : Orderly signals (begun machine signals concurrent now jobs world) :=
    orderly_begun hc
  have hsorted : (phaseTurns machine signals concurrent now jobs world).Pairwise
      fun t t' => t.instant ≤ t'.instant := horderly.pairwise_turns
  have hone : ∀ record ∈ records, record.handlings.countP (Handling.late T) ≤ 1 := by
    intro record hrecord
    obtain ⟨u, hu⟩ := List.getElem?_of_mem hrecord
    obtain ⟨backend, p, dry, project, plan, h⟩ := hcut u record hu
    exact h.countP_late (hsorted.sublist List.filter_sublist)
  obtain ⟨us, hnodup, hlength, hus⟩ := exists_lateUnits T records
  have hstraddles : ∀ u ∈ us,
      (∃ t ∈ phaseTurns machine signals concurrent now jobs world, t.unit = u ∧ t.instant < T)
        ∧ ∃ t ∈ phaseTurns machine signals concurrent now jobs world,
            t.unit = u ∧ T ≤ t.instant := fun u hu => by
    obtain ⟨record, hrecord, a, ha, hlate⟩ := hus u hu
    exact hcut.straddles hrecord ha hlate
  calc (records.flatMap UnitRecord.handlings).countP (Handling.late T)
      ≤ us.length := hlength ▸ countP_flatMap_late hone
    _ ≤ (begun machine signals concurrent now jobs world).flights.length :=
      horderly.straddling_le hnodup (fun u hu => (hstraddles u hu).2)
        fun u hu => .inr (hstraddles u hu).1
    _ ≤ concurrent := length_flights_begun

/-- A phase with turns on one side of the instant only completes no action late. -/
theorem countP_late_eq_zero {course : List (Turn ω UnitResult)} {records : List (UnitRecord ω)}
    (hcut : AllCutOff machine signals T course records)
    (hside : (∀ t ∈ course, t.instant < T) ∨ ∀ t ∈ course, T ≤ t.instant) :
    (records.flatMap UnitRecord.handlings).countP (Handling.late T) = 0 := by
  refine List.countP_eq_zero.2 fun a ha hlate => ?_
  obtain ⟨record, hrecord, ha⟩ := List.mem_flatMap.1 ha
  obtain ⟨u, hu⟩ := List.getElem?_of_mem hrecord
  obtain ⟨⟨t, ht, -, hlt⟩, t', ht', -, hle⟩ := hcut.straddles hu ha hlate
  rcases hside with hside | hside
  · exact absurd (hside t' ht') (Nat.not_lt_of_le hle)
  · exact absurd (hside t ht) (Nat.not_le_of_lt hlt)

end Schedule

/-! ## A run -/

theorem opens_projectUnit {p : Profile} {projects : List ProjectSpec} {dry : Bool} :
    (projectUnit p projects dry).Opens p.registry.name none :=
  ⟨_, rfl, fun _ => rfl⟩

theorem opens_memberUnit {p : Profile} {spec : ProjectSpec} {dry : Bool} :
    (memberUnit p spec dry).Opens p.registry.name (some spec.name) :=
  ⟨_, rfl, fun _ => rfl⟩

/-- **A unit whose turns divide among its actions is cut off** by a signal. -/
theorem UnitRecord.CutOff.of_divide {machine : Machine ω} {signals : Signals} {T backend : Nat}
    {p : Profile} {dry : Bool} {project : Option String} {plan : List Action → Prop}
    {turns : List (Turn ω UnitResult)} {w : Work UnitResult} {r : UnitResult}
    {handlings : List (Handling ω UnitResult)} (hT : signals.at? T ≠ none)
    (hbackend : ∀ t ∈ turns, t.backend = backend) (hopens : w.Opens p.registry.name project)
    (hleads : Turn.Leads machine signals w turns (.done r))
    (hdivide : Handling.Divide machine signals p dry project plan turns r handlings) :
    UnitRecord.CutOff machine signals T backend p dry project plan turns ⟨r, handlings⟩ where
  onBackend := hbackend
  divided := hdivide
  begun := hdivide.inOrder.begunBefore hT
  leftOut := Schedule.leftOut_of_opens hT hopens hleads

namespace World

section

variable (T : Nat) (w : World) (directory : Option CredentialDirectory) (settings : RunSettings)
  (cancel : Option Nat) (projects : List ProjectSpec)

/-- **The unit of a registry is cut off** at an instant. -/
def ProjectsCutOff (u : Nat) (record : UnitRecord World) : Prop :=
  ∃ p, (w.backends.map Backend.profile)[u]? = some p
    ∧ record.CutOff (w.machine directory) ⟨settings.deadline, cancel⟩ T u p settings.dry none
        (projectPlan p projects) (Turn.ofUnit u (w.projectTurns directory settings cancel projects))

/-- **The unit of a project on a registry is cut off** at an instant. -/
def MembersCutOff (u : Nat) (record : UnitRecord World) : Prop :=
  ∃ i p spec, (memberSpots (w.backends.map Backend.profile) projects)[u]? = some (i, p, spec)
    ∧ record.CutOff (w.machine directory) ⟨settings.deadline, cancel⟩ T i p settings.dry
        (some spec.name) (memberPlan spec)
        (Turn.ofUnit u (w.memberTurns directory settings cancel projects))

/-- **A run that is interrupted** at an instant, with a record of each of its units. -/
structure InterruptedAt (firsts seconds : List (UnitRecord World)) : Prop where
  /-- The report is of these units. -/
  reported : (w.reconcile directory settings cancel projects).1.units.Perm
    ((firsts ++ seconds).map UnitRecord.result)
  /-- There is one for each registry, … -/
  projects_length : firsts.length = w.backends.length
  projectsCutOff : ∀ u record, firsts[u]? = some record →
    ProjectsCutOff T w directory settings cancel projects u record
  /-- … and one for each project on each registry where it is expected. -/
  members_length :
    seconds.length = (memberSpots (w.backends.map Backend.profile) projects).length
  membersCutOff : ∀ u record, seconds[u]? = some record →
    MembersCutOff T w directory settings cancel projects u record
  /-- At most so many actions are completed from then on. -/
  completions : ((firsts ++ seconds).flatMap UnitRecord.handlings).countP (Handling.late T)
    ≤ settings.concurrent

end

variable {w : World} {directory : Option CredentialDirectory} {settings : RunSettings}
  {cancel : Option Nat} {projects : List ProjectSpec} {T : Nat}

/-- The records of the first phase. -/
theorem projectRecords (hc : 0 < settings.concurrent)
    (hT : (Signals.mk settings.deadline cancel).at? T ≠ none) :
    ∃ records : List (UnitRecord World),
      (w.projectPhase directory settings cancel projects).values.Perm
          (records.map UnitRecord.result)
        ∧ records.length = (projectJobs (w.backends.map Backend.profile) projects
            settings.dry).length
        ∧ ∀ u record, records[u]? = some record →
          ProjectsCutOff T w directory settings cancel projects u record := by
  refine Schedule.phase_records hc fun u job r turns hjob hturns hbackend hleads => ?_
  rw [getElem?_projectJobs] at hjob
  obtain ⟨p, hp, rfl⟩ := Option.map_eq_some_iff.1 hjob
  obtain ⟨handlings, hdivide⟩ := hleads.divide_projectUnit
  subst hturns
  exact ⟨handlings, p, hp, .of_divide hT hbackend opens_projectUnit hleads hdivide⟩

/-- The records of the second phase. -/
theorem memberRecords (hc : 0 < settings.concurrent)
    (hT : (Signals.mk settings.deadline cancel).at? T ≠ none) :
    ∃ records : List (UnitRecord World),
      (w.memberPhase directory settings cancel projects).values.Perm
          (records.map UnitRecord.result)
        ∧ records.length = (memberJobs (w.backends.map Backend.profile) projects
            settings.dry).length
        ∧ ∀ u record, records[u]? = some record →
          MembersCutOff T w directory settings cancel projects u record := by
  refine Schedule.phase_records hc fun u job r turns hjob hturns hbackend hleads => ?_
  rw [memberJobs_eq, List.getElem?_map] at hjob
  obtain ⟨⟨i, p, spec⟩, hspot, rfl⟩ := Option.map_eq_some_iff.1 hjob
  obtain ⟨handlings, hdivide⟩ := hleads.divide_memberUnit
  subst hturns
  exact ⟨handlings, i, p, spec, hspot, .of_divide hT hbackend opens_memberUnit hleads hdivide⟩

/-- **Late completions of a run**: only one of its phases has any. -/
theorem countP_late_run {firsts seconds : List (UnitRecord World)} (hc : 0 < settings.concurrent)
    (hfirsts : ∀ u record, firsts[u]? = some record →
      ProjectsCutOff T w directory settings cancel projects u record)
    (hseconds : ∀ u record, seconds[u]? = some record →
      MembersCutOff T w directory settings cancel projects u record) :
    ((firsts ++ seconds).flatMap UnitRecord.handlings).countP (Handling.late T)
      ≤ settings.concurrent := by
  have hfirst : Schedule.AllCutOff (w.machine directory) ⟨settings.deadline, cancel⟩ T
      (w.projectTurns directory settings cancel projects) firsts := fun u record hu => by
    obtain ⟨p, -, h⟩ := hfirsts u record hu
    exact ⟨_, _, _, _, _, h⟩
  have hsecond : Schedule.AllCutOff (w.machine directory) ⟨settings.deadline, cancel⟩ T
      (w.memberTurns directory settings cancel projects) seconds := fun u record hu => by
    obtain ⟨i, p, spec, -, h⟩ := hseconds u record hu
    exact ⟨_, _, _, _, _, h⟩
  rw [List.flatMap_append, List.countP_append]
  by_cases hlate : ∃ t ∈ w.projectTurns directory settings cancel projects, T ≤ t.instant
  · -- The second phase begins where the first one ends, and has no turn before the instant.
    obtain ⟨t, ht, hTt⟩ := hlate
    have hall : ∀ t ∈ w.memberTurns directory settings cancel projects, T ≤ t.instant :=
      fun t' ht' => Nat.le_trans (Nat.le_trans hTt (Schedule.instant_phaseTurns ht).2)
        (Schedule.instant_phaseTurns ht').1
    rw [Schedule.countP_late_eq_zero hsecond (.inr hall), Nat.add_zero]
    exact Schedule.countP_late_phase hc hfirst
  · have hall : ∀ t ∈ w.projectTurns directory settings cancel projects, t.instant < T :=
      fun t ht => Nat.lt_of_not_le fun hTt => hlate ⟨t, ht, hTt⟩
    rw [Schedule.countP_late_eq_zero hfirst (.inl hall), Nat.zero_add]
    exact Schedule.countP_late_phase hc hsecond

/-- **An interrupted run starts nothing more** — from the instant on at which the deadline has
passed or a cancellation was signalled, no action is started, and at most as many are completed as
units may be in flight; each action that was started is performed to its end; and a unit that had
not begun is reported as not reconciled and changes nothing. A cancellation that was signalled stays
signalled (`Signals`). -/
theorem reconcile_interrupted (hc : 1 ≤ settings.concurrent)
    (hT : settings.deadline ≤ T ∨ ∃ t, cancel = some t ∧ t ≤ T) :
    ∃ firsts seconds, InterruptedAt T w directory settings cancel projects firsts seconds := by
  have hsignal : (Signals.mk settings.deadline cancel).at? T ≠ none := by
    rcases hT with hT | ⟨t, rfl, hT⟩
    · exact Signals.at?_ne_none hT
    · simp [Signals.at?, hT]
  obtain ⟨firsts, hfirsts, hfirst, hprojects⟩ := projectRecords hc hsignal
  obtain ⟨seconds, hseconds, hsecond, hmembers⟩ := memberRecords hc hsignal
  refine ⟨firsts, seconds, ?_, ?_, hprojects, ?_, hmembers,
    countP_late_run hc hprojects hmembers⟩
  · rw [reconcile_eq, List.map_append]
    exact ((List.mergeSort_perm _ _).trans hfirsts).append
      ((List.mergeSort_perm _ _).trans hseconds)
  · simp [hfirst, projectJobs, numbered]
  · rw [hsecond, memberJobs_eq, List.length_map]

/-- A backend that takes its time, with a project to be deleted after its repositories. -/
def crowdedBackend : Memory :=
  { (Memory.ofRegistry ⟨"edge", "https://edge.example.com", ⟨"admin", "secret"⟩, .harbor, .leaf,
      ⟨true, none⟩, .empty⟩).addProject "old" ["app", "web"] with latency := 10 }

/-- A project that is expected everywhere, with a robot. -/
def robotProject : ProjectSpec := ⟨"new", .everywhere, [], [⟨"ci", .robot, "PullOnly"⟩], none⟩

/-- The run is cancelled and the deadline passes while the repositories are being deleted: the
project is deleted to the end, and the one behind it is not created. -/
theorem reconcile_interrupted_deletion :
    (∃ firsts seconds, InterruptedAt 35 (ofMemories [crowdedBackend]) (some ⟨"creds", .yaml⟩)
        ⟨2, 38, false⟩ (some 35) [robotProject] firsts seconds)
      ∧ ∃ r ∈ ((ofMemories [crowdedBackend]).reconcile (some ⟨"creds", .yaml⟩) ⟨2, 38, false⟩
            (some 35) [robotProject]).1.units,
          r.actions.map ActionResult.status = [.succeeded, .notStarted] := by
  refine ⟨reconcile_interrupted (by decide) (.inr ⟨35, rfl, Nat.le_refl 35⟩), ?_⟩
  obtain ⟨hfirst, -⟩ := phases_eq_phasesFor (ofMemories [crowdedBackend]) (some ⟨"creds", .yaml⟩)
    ⟨2, 38, false⟩ (some 35) [robotProject] 20 (by decide +kernel) (by decide +kernel)
  obtain ⟨r, hr, hstatus⟩ : ∃ r ∈ ((ofMemories [crowdedBackend]).projectPhaseFor
      (some ⟨"creds", .yaml⟩) ⟨2, 38, false⟩ (some 35) [robotProject] 20).values,
      r.actions.map ActionResult.status = [.succeeded, .notStarted] := by
    decide +kernel
  rw [reconcile_eq, hfirst]
  exact ⟨r, List.mem_append_left _ (UnitResult.mem_sortByLabel.2 hr), hstatus⟩

end World

end RegistryFleet
