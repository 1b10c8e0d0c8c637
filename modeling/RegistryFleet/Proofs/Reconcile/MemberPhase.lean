import RegistryFleet.Proofs.Reconcile.Diff
import RegistryFleet.Proofs.Reconcile.InMemory

/-!
# Proofs/Reconcile/MemberPhase — what the second phase makes of the members of a project

A unit of the second phase owns one project of a backend, and may see some of the files. What is to
be shown of the two is an invariant of the changes that are still to come.

* `MemberAim` — what such an invariant has to survive.
* `World.secure_memberUnit` — the unit of a project on a registry.
* `MemberPlan` — an aim for every project of a run.
* `World.memberPhase_secure` — the whole phase.
-/

namespace RegistryFleet

/-! ## One change -/

/-- **The effect that a change calls for.** -/
inductive Change.Asks (p : Profile) (project : Project) : Change Member → Effect → Prop
  | remove (b : Member) : Asks p project (.remove b) (Action.unbindingEffect p project b)
  | add (b : Member) (generated : Option Credentials)
      (h : generated.isSome = true ↔ b.type = .robot) :
      Asks p project (.add b) (Action.bindingEffect p project b generated)

/-! ## What is to be shown -/

/-- **What is to be shown of the members of a project** and of what their unit sees of the files,
while changes are still to come: `Held`, unless something `Bad` has become of a change. -/
structure MemberAim {F : Type} (calm : Prop) (fails : List String) (Bad : ActionResult → Prop)
    (Passed : String → Prop) (Comes : Change Member → Except Error Unit → F → F → Prop)
    (Held : List Member → F → List (Change Member) → Prop) : Prop where
  interrupted : ¬ calm → ∀ text, Bad (.plain text .notStarted)
  /-- Changes of members of these names may be passed over. -/
  passed : ∀ members f c rest, Held members f (c :: rest) → Passed c.element.name →
    Held members f rest
  failing : ∀ name, fails.contains name = true →
    Passed name ∨ ∀ text reason, Bad (.plain text (.failed reason))
  absent : ∀ members f b rest, Held members f (.remove b :: rest) → fails.contains b.name = false →
    b ∉ members → ∀ text reason, Bad (.plain text (.failed reason))
  carriedOut : ∀ members f c rest out f', Held members f (c :: rest) →
    fails.contains c.element.name = false → Comes c out f f' →
      (Held (c.carryOut members) f' rest ∧ ∀ err, out = .error err → err.isFatal = false)
        ∨ ∀ text e, Bad ⟨text, .succeeded, .ofOutcome e out⟩

/-- **The loop invariant.** -/
structure MembersUnderway {F : Type} (repositories : List String) (Bad : ActionResult → Prop)
    (Passed : String → Prop) (Held : List Member → F → List (Change Member) → Prop)
    (done : List ActionResult) (s : Progress) (rest : List (Change Member)) (h : Holding) (f : F) :
    Prop where
  repositories : h.repositories = repositories
  progress : (∃ r ∈ done, Bad r)
    ∨ s.halted = false ∧ (∀ n ∈ s.stuck, Passed n) ∧ Held h.members f rest

namespace MembersUnderway

variable {F : Type} {repositories : List String} {Bad : ActionResult → Prop}
  {Passed : String → Prop} {Held : List Member → F → List (Change Member) → Prop}
  {done : List ActionResult} {s s' : Progress} {c : Change Member} {rest : List (Change Member)}
  {h h' : Holding} {f f' : F} {r : ActionResult}

/-- A change that something bad becomes of. -/
theorem bad (hu : MembersUnderway repositories Bad Passed Held done s (c :: rest) h f)
    (hrepositories : h'.repositories = h.repositories) (hr : (∃ r ∈ done, Bad r) ∨ Bad r) :
    MembersUnderway repositories Bad Passed Held (done ++ [r]) s' rest h' f' where
  repositories := hrepositories.trans hu.repositories
  progress := .inl <| by
    rcases hr with ⟨r', hr', hbad⟩ | hbad
    · exact ⟨r', List.mem_append_left _ hr', hbad⟩
    · exact ⟨r, by simp, hbad⟩

/-- A change after which the aim is still met. -/
theorem held (hu : MembersUnderway repositories Bad Passed Held done s (c :: rest) h f)
    (hrepositories : h'.repositories = h.repositories)
    (hheld : s.halted = false → (∀ n ∈ s.stuck, Passed n) → Held h.members f (c :: rest) →
      s'.halted = false ∧ (∀ n ∈ s'.stuck, Passed n) ∧ Held h'.members f' rest) :
    MembersUnderway repositories Bad Passed Held (done ++ [r]) s' rest h' f' := by
  rcases hu.progress with hbad | ⟨hhalted, hstuck, hheld'⟩
  · exact hu.bad hrepositories (.inl hbad)
  · exact ⟨hrepositories.trans hu.repositories, .inr (hheld hhalted hstuck hheld')⟩

end MembersUnderway

/-- **What can become of the members of a project** in one run: what their unit reports, and what is
left of the project and of what the unit sees of the files. -/
inductive MemberOutcome {F : Type} (calm : Prop) (p : Profile) (Bad : ActionResult → Prop)
    (Held : Holding → List Member → F → List (Change Member) → Prop) (o : Option Holding) (f : F)
    (r : UnitResult) : Option Holding → F → Prop
  | interrupted (h : ¬ calm) (reason : String) (hr : r.status = .notReconciled reason)
      (o' : Option Holding) (f' : F) : MemberOutcome calm p Bad Held o f r o' f'
  | skipped (h : p.hasMembers = false ∨ o = none) : MemberOutcome calm p Bad Held o f r o f
  | bad (hr : r.status = UnitResult.statusOf r.actions) (h : ∃ a ∈ r.actions, Bad a)
      (o' : Option Holding) (f' : F) : MemberOutcome calm p Bad Held o f r o' f'
  | held (h h' : Holding) (ho : o = some h) (hrepositories : h'.repositories = h.repositories)
      (f' : F) (hheld : Held h h'.members f' []) : MemberOutcome calm p Bad Held o f r (some h') f'

namespace World

variable {machine : Machine World} {backendOf : Nat → Nat} {setups : List Memory}
  {places : List (Nat × String)} {base : World} {F : Type} {sh : Shelves F} {u i : Nat}
  {name : String} {m₀ : Memory} {calm : Prop} {p : Profile} {h : Holding} {f : F} {α : Type}

/-- A unit finds its own project. -/
theorem secure_lookUp (hserve : machine.serve = serve) (hplace : places[u]? = some (i, name))
    (hbackend : backendOf u = i) (hm₀ : setups[i]? = some m₀) (hnodup : places.Nodup)
    {t : Project → Calls (Except Error α)} {Q : Except Error α → Option Holding × F → Prop}
    (ht : (byProject machine backendOf setups places base sh).Secure u calm Q
      (Work.acting (t (.named name))) (some h, f)) :
    (byProject machine backendOf setups places base sh).Secure u calm Q
      (Work.acting ((Action.lookUp p name).andThen t)) (some h, f) := by
  refine Division.Secure.acting (acts_call (c := .findProject name) hserve hplace hbackend hm₀
    hnodup (fun _ hq => (by cases hq)) fun m _ hm => ?_)
  rw [Memory.serve_findProject, hm]
  exact ht

/-- **A member is bound**, unless the backend rejects its name. -/
theorem secure_assign (hserve : machine.serve = serve) (hplace : places[u]? = some (i, name))
    (hbackend : backendOf u = i) (hm₀ : setups[i]? = some m₀) (hnodup : places.Nodup)
    (hp : p.hasMembers = true) {b : Member}
    {Q : Except Error Effect → Option Holding × F → Prop}
    (hfailing : m₀.failing.contains b.name = true → ∀ err, err.isRecoverable = true →
      Q (.error err) (some h, f))
    (hdone : m₀.failing.contains b.name = false → ∀ e, (Change.add b).Asks p (.named name) e →
      Q (.ok e) (some { h with members := h.members ++ [b] }, f)) :
    (byProject machine backendOf setups places base sh).Secure u calm Q
      (Work.acting ((Action.ofMemberChange name (.add b)).perform p)) (some h, f) := by
  rw [Action.ofMemberChange, Action.perform, Profile.withMembers, if_pos hp]
  refine secure_lookUp hserve hplace hbackend hm₀ hnodup ?_
  refine Division.Secure.acting (acts_call (c := .assign (.named name) b) hserve hplace hbackend
    hm₀ hnodup (fun q hq => (Option.some.inj hq).symm) fun m hsetup hm => ?_)
  rw [Memory.serve_assign, Memory.failing_of_setup hsetup, Project.named, hm]
  by_cases hb : m₀.failing.contains b.name = true
  · rw [if_pos hb, hm]
    exact hfailing hb _ rfl
  · have hbound := Keyed.get?_insert_self m.projects name { h with members := h.members ++ [b] }
    rw [if_neg hb]
    change Q _ ((m.projects.insert name { h with members := h.members ++ [b] }).get? name, f)
    rw [hbound]
    refine hdone ((Bool.not_eq_true _).mp hb) _ (.add b _ ?_)
    split <;> simp_all

/-- **A member is unbound**, unless the backend rejects its name or it is not bound. -/
theorem secure_unassign (hserve : machine.serve = serve) (hplace : places[u]? = some (i, name))
    (hbackend : backendOf u = i) (hm₀ : setups[i]? = some m₀) (hnodup : places.Nodup)
    (hp : p.hasMembers = true) {b : Member}
    {Q : Except Error Effect → Option Holding × F → Prop}
    (hfailing : m₀.failing.contains b.name = true → ∀ err, err.isRecoverable = true →
      Q (.error err) (some h, f))
    (habsent : m₀.failing.contains b.name = false → b ∉ h.members →
      ∀ err, err.isRecoverable = true → Q (.error err) (some h, f))
    (hdone : m₀.failing.contains b.name = false → ∀ e, (Change.remove b).Asks p (.named name) e →
      Q (.ok e) (some { h with members := h.members.erase b }, f)) :
    (byProject machine backendOf setups places base sh).Secure u calm Q
      (Work.acting ((Action.ofMemberChange name (.remove b)).perform p)) (some h, f) := by
  rw [Action.ofMemberChange, Action.perform, Profile.withMembers, if_pos hp]
  refine secure_lookUp hserve hplace hbackend hm₀ hnodup ?_
  refine Division.Secure.acting (acts_call (c := .unassign (.named name) b) hserve hplace
    hbackend hm₀ hnodup (fun q hq => (Option.some.inj hq).symm) fun m hsetup hm => ?_)
  rw [Memory.serve_unassign, Memory.failing_of_setup hsetup, Project.named, hm]
  by_cases hb : m₀.failing.contains b.name = true
  · rw [if_pos hb, hm]
    exact hfailing hb _ rfl
  · have hb' : m₀.failing.contains b.name = false := (Bool.not_eq_true _).mp hb
    rw [if_neg hb]
    by_cases hmem : h.members.contains b = true
    · have hunbound := Keyed.get?_insert_self m.projects name
        { h with members := h.members.erase b }
      simp only [hmem, if_true]
      change Q _ ((m.projects.insert name { h with members := h.members.erase b }).get? name, f)
      rw [hunbound]
      exact hdone hb' _ (.remove b)
    · simp only [hmem, Bool.false_eq_true, if_false, hm]
      exact habsent hb' (fun hmem' => hmem (List.contains_iff_mem.2 hmem')) _ rfl

/-- **One change of the members of a project**, by what can become of it. -/
theorem secure_change (hserve : machine.serve = serve) (hplace : places[u]? = some (i, name))
    (hbackend : backendOf u = i) (hm₀ : setups[i]? = some m₀) (hnodup : places.Nodup)
    (hp : p.hasMembers = true) {c : Change Member}
    {Q : Except Error Effect → Option Holding × F → Prop}
    (hfailing : m₀.failing.contains c.element.name = true → ∀ err, err.isRecoverable = true →
      Q (.error err) (some h, f))
    (habsent : ∀ b, c = .remove b → m₀.failing.contains b.name = false → b ∉ h.members →
      ∀ err, err.isRecoverable = true → Q (.error err) (some h, f))
    (hdone : m₀.failing.contains c.element.name = false → ∀ e, c.Asks p (.named name) e →
      Q (.ok e) (some { h with members := c.carryOut h.members }, f)) :
    (byProject machine backendOf setups places base sh).Secure u calm Q
      (Work.acting ((Action.ofMemberChange name c).perform p)) (some h, f) := by
  cases c with
  | add b => exact secure_assign hserve hplace hbackend hm₀ hnodup hp hfailing hdone
  | remove b =>
    exact secure_unassign hserve hplace hbackend hm₀ hnodup hp hfailing (habsent b rfl) hdone

/-! ## The loop over the changes -/

variable {directory : Option CredentialDirectory} {Bad : ActionResult → Prop}
  {Passed : String → Prop} {Comes : Change Member → Except Error Unit → F → F → Prop}
  {Held : List Member → F → List (Change Member) → Prop} {changes : List (Change Member)}

/-- The action that a blocked member waits for is about that member. -/
theorem blocks_memberChange {s : Progress} {c : Change Member}
    (h : s.blocks (Action.ofMemberChange name c) = true) : c.element.name ∈ s.stuck := by
  cases c with
  | add b => exact List.contains_iff_mem.1 h
  | remove b => cases h

/-- A failed change of a member makes later changes of that member wait, and of no other. -/
theorem failureOutcome_memberChange (s : Progress) (name : String) (c : Change Member) {err : Error}
    (h : err.isRecoverable = true) :
    (failureOutcome s (Action.ofMemberChange name c) err).1
        = .plain (Action.ofMemberChange name c).description (.failed err.message)
      ∧ (failureOutcome s (Action.ofMemberChange name c) err).2.halted = s.halted
      ∧ ∀ n ∈ (failureOutcome s (Action.ofMemberChange name c) err).2.stuck,
          n = c.element.name ∨ n ∈ s.stuck := by
  have hgap := Error.isCapabilityGap_of_isRecoverable h
  have hfatal := Error.isFatal_of_isRecoverable h
  simp only [failureOutcome, hgap, hfatal, Bool.or_false]
  refine ⟨rfl, rfl, fun n hn => ?_⟩
  cases c with
  | add b => exact .inr hn
  | remove b => exact (List.mem_cons.1 hn)

/-- **One change of the members of a project**, in the loop over all of them. -/
theorem secure_memberChange (hserve : machine.serve = serve)
    (hsettle : machine.settle = settle directory) (hplace : places[u]? = some (i, name))
    (hbackend : backendOf u = i) (hm₀ : setups[i]? = some m₀) (hnodup : places.Nodup)
    (hp : p.hasMembers = true) (haim : MemberAim calm m₀.failing Bad Passed Comes Held)
    {c : Change Member} {cs : List (Change Member)} {repositories : List String}
    {done : List ActionResult} {s : Progress}
    (hcomes : ∀ e, c.Asks p (.named name) e →
      sh.Settles directory places (i, name) e (Comes c))
    (hu : MembersUnderway repositories Bad Passed Held done s (c :: cs) h f) :
    (byProject machine backendOf setups places base sh).Secure u calm
      (fun r v => ∃ h', v.1 = some h' ∧
        MembersUnderway repositories Bad Passed Held (done ++ [r.1]) r.2 cs h' v.2)
      (runAction Work.interrupted (fun a => Work.acting (a.perform p)) Work.settling false s
        (Action.ofMemberChange name c)) (some h, f) := by
  refine Division.secure_runAction (fun hhalted => ?_) (fun _ hcalm => ?_)
    (fun _ hdry => nomatch hdry) (fun _ _ hblocks => ?_) (fun _ _ _ => ?_)
  · refine ⟨h, rfl, hu.held rfl fun hnot => ?_⟩
    rw [hnot] at hhalted
    cases hhalted
  · exact ⟨h, rfl, hu.bad rfl (.inr (haim.interrupted hcalm _))⟩
  · refine ⟨h, rfl, hu.held rfl fun hhalted hstuck hheld => ⟨hhalted, hstuck, ?_⟩⟩
    exact haim.passed _ _ _ _ hheld (hstuck _ (blocks_memberChange hblocks))
  refine secure_change hserve hplace hbackend hm₀ hnodup hp (fun hfailing err herr => ?_)
    (fun b hb hkept hmem err herr => ?_) (fun hkept e hasks => ?_)
  · obtain ⟨hresult, hhalted, hstuck⟩ := failureOutcome_memberChange s name c herr
    refine ⟨h, rfl, ?_⟩
    rcases haim.failing _ hfailing with hpassed | hbad
    · refine hu.held rfl fun hnot hpast hheld => ⟨hhalted.trans hnot, fun n hn => ?_, ?_⟩
      · rcases hstuck n hn with rfl | hn
        · exact hpassed
        · exact hpast n hn
      · exact haim.passed _ _ _ _ hheld hpassed
    · exact hu.bad rfl (.inr (hresult ▸ hbad _ _))
  · obtain ⟨hresult, -⟩ := failureOutcome_memberChange s name c herr
    refine ⟨h, rfl, hu.bad rfl ?_⟩
    rcases hu.progress with hbad | ⟨-, -, hheld⟩
    · exact .inl hbad
    · subst hb
      exact .inr (hresult ▸ haim.absent _ _ _ _ hheld hkept hmem _ _)
  · refine .ok (acts_settle hsettle hplace hnodup (hcomes e hasks) fun out f' hout => ?_)
    refine ⟨_, rfl, ?_⟩
    rcases hu.progress with hbad | ⟨-, -, hheld⟩
    · exact hu.bad rfl (.inl hbad)
    · rcases haim.carriedOut _ _ _ _ _ _ hheld hkept hout with ⟨hheld', hfatal⟩ | hbad
      · refine hu.held rfl fun hnot hstuck _ => ⟨?_, hstuck, hheld'⟩
        cases out with
        | ok _ => exact (Bool.or_false _).trans hnot
        | error err => exact Bool.or_eq_false_iff.2 ⟨hnot, hfatal err rfl⟩
      · exact hu.bad rfl (.inr (hbad _ _))

/-- **The changes of the members of a project**, one after the other. -/
theorem secure_memberChanges (hserve : machine.serve = serve)
    (hsettle : machine.settle = settle directory) (hplace : places[u]? = some (i, name))
    (hbackend : backendOf u = i) (hm₀ : setups[i]? = some m₀) (hnodup : places.Nodup)
    (hp : p.hasMembers = true) (haim : MemberAim calm m₀.failing Bad Passed Comes Held)
    (hcomes : ∀ c ∈ changes, ∀ e, c.Asks p (.named name) e →
      sh.Settles directory places (i, name) e (Comes c))
    (hheld : Held h.members f changes) :
    (byProject machine backendOf setups places base sh).Secure u calm
      (fun rs v => ∃ s h', v.1 = some h' ∧
        MembersUnderway h.repositories Bad Passed Held rs s [] h' v.2)
      (Work.actions p false (changes.map (Action.ofMemberChange name))) (some h, f) := by
  refine Division.Secure.mono ?_ (Division.secure_runActions (I := fun done s rest v =>
    ∃ cs h', cs ⊆ changes ∧ rest = cs.map (Action.ofMemberChange name) ∧ v.1 = some h' ∧
      MembersUnderway h.repositories Bad Passed Held done s cs h' v.2)
    ⟨changes, h, List.Subset.refl _, rfl, rfl, rfl,
      .inr ⟨rfl, fun _ hn => absurd hn List.not_mem_nil, hheld⟩⟩ ?_)
  · rintro rs v ⟨s, cs, h', -, hcs, hv, hu⟩
    obtain rfl := List.map_eq_nil_iff.1 hcs.symm
    exact ⟨s, h', hv, hu⟩
  · rintro done s a rest ⟨o, f⟩ ⟨cs, h', hsubset, hcs, rfl, hu⟩
    obtain ⟨c, cs, rfl, rfl, rfl⟩ := List.map_eq_cons_iff.1 hcs.symm
    obtain ⟨hc, hsubset⟩ := List.cons_subset.1 hsubset
    refine (secure_memberChange hserve hsettle hplace hbackend hm₀ hnodup hp haim (hcomes c hc)
      hu).mono ?_
    rintro r v ⟨h'', hv, hu'⟩
    exact ⟨cs, h'', hsubset, rfl, hv, hu'⟩

/-- **The unit of a project on a registry.** -/
theorem secure_memberUnit {Held : Holding → List Member → F → List (Change Member) → Prop}
    (hserve : machine.serve = serve) (hsettle : machine.settle = settle directory)
    {spec : ProjectSpec} (hplace : places[u]? = some (i, spec.name)) (hbackend : backendOf u = i)
    (hm₀ : setups[i]? = some m₀) (hnodup : places.Nodup)
    {o : Option Holding}
    (hcomes : ∀ h, o = some h → ∀ c ∈ diff h.members spec.members, ∀ e,
      c.Asks p (.named spec.name) e → sh.Settles directory places (i, spec.name) e (Comes c))
    (haim : p.hasMembers = true → ∀ h, o = some h →
      MemberAim calm m₀.failing Bad Passed Comes (Held h)
        ∧ Held h h.members f (diff h.members spec.members)) :
    (byProject machine backendOf setups places base sh).Secure u calm
      (fun r v => MemberOutcome calm p Bad Held o f r v.1 v.2) (memberUnit p spec false)
      (o, f) := by
  intro i hi
  cases i with
  | some i => exact .interrupted (fun hc => Option.some_ne_none i (hi hc)) _ rfl o f
  | none =>
    change Division.Secure _ u calm _ (ite _ _ _) (o, f)
    split
    · next hp => exact .skipped (.inl (by simpa using hp))
    · next hp =>
      have hp : p.hasMembers = true := by simpa using hp
      refine Division.Secure.bind (w := Work.observing (observeMembers spec.name)) ?_
      refine Division.Secure.observing (c := .findProject spec.name)
        (fun hc i => .interrupted hc _ rfl o f) (acts_call (c := .findProject spec.name) hserve
          hplace hbackend hm₀ hnodup (fun _ hq => (by cases hq)) fun m _ hm => ?_)
      rw [Memory.serve_findProject, hm]
      cases o with
      | none => exact .skipped (.inr rfl)
      | some h =>
        refine Division.Secure.observing (c := .members (.named spec.name))
          (fun hc i => .interrupted hc _ rfl _ f) (acts_call (c := .members (.named spec.name))
            hserve hplace hbackend hm₀ hnodup (fun _ hq => (by cases hq)) fun m _ hm => ?_)
        rw [Memory.serve_members hm, hm]
        refine Division.Secure.bind ((secure_memberChanges hserve hsettle hplace hbackend hm₀
          hnodup hp (haim hp h rfl).1 (hcomes h rfl) (haim hp h rfl).2).mono ?_)
        rintro rs ⟨o', f'⟩ ⟨s, h', ho', hu⟩
        rcases hu.progress with hbad | ⟨-, -, hheld'⟩
        · exact .bad rfl hbad o' f'
        · obtain rfl : o' = some h' := ho'
          exact .held h h' rfl hu.repositories f' hheld'

end World

/-! ## The units of the phase -/

/-- What the units of the second phase are about: the number and the profile of a backend, and a
project that is expected on it. -/
def memberSpots (profiles : List Profile) (projects : List ProjectSpec) :
    List (Nat × Profile × ProjectSpec) :=
  (numbered profiles).flatMap fun (i, p) =>
    (expectedOn p.registry.name projects).map fun spec => (i, p, spec)

/-- The projects that the units of the second phase own. -/
def memberPlaces (profiles : List Profile) (projects : List ProjectSpec) : List (Nat × String) :=
  (memberSpots profiles projects).map fun s => (s.1, s.2.2.name)

theorem memberJobs_eq (profiles : List Profile) (projects : List ProjectSpec) (dry : Bool) :
    memberJobs profiles projects dry
      = (memberSpots profiles projects).map fun s => ⟨s.1, memberUnit s.2.1 s.2.2 dry⟩ := by
  simp only [memberJobs, memberSpots, List.map_flatMap, List.map_map]
  rfl

theorem mem_memberSpots {profiles : List Profile} {projects : List ProjectSpec} {i : Nat}
    {p : Profile} {spec : ProjectSpec} : (i, p, spec) ∈ memberSpots profiles projects
      ↔ profiles[i]? = some p ∧ spec ∈ expectedOn p.registry.name projects := by
  simp only [memberSpots, List.mem_flatMap, List.mem_map, Prod.mk.injEq, Prod.exists]
  constructor
  · rintro ⟨j, q, hmem, spec', hspec, rfl, rfl, rfl⟩
    obtain ⟨k, hk⟩ := List.getElem?_of_mem hmem
    rw [getElem?_numbered] at hk
    obtain ⟨p, hp, hpair⟩ := Option.map_eq_some_iff.1 hk
    obtain ⟨rfl, rfl⟩ := Prod.mk.inj hpair
    exact ⟨hp, hspec⟩
  · rintro ⟨hp, hspec⟩
    refine ⟨i, p, List.mem_of_getElem? (i := i) ?_, spec, hspec, rfl, rfl, rfl⟩
    rw [getElem?_numbered, hp]
    rfl

/-- The units of the second phase, where all backends are in memory. -/
theorem getElem?_memberSpots {ms : List Memory} {projects : List ProjectSpec} {u i : Nat}
    {p : Profile} {spec : ProjectSpec}
    (hu : (memberSpots (ms.map Memory.profile) projects)[u]? = some (i, p, spec)) :
    ∃ m, ms[i]? = some m ∧ p = m.profile ∧ spec ∈ expectedOn m.registry.name projects := by
  obtain ⟨hp, hspec⟩ := mem_memberSpots.1 (List.mem_of_getElem? hu)
  rw [List.getElem?_map] at hp
  obtain ⟨m, hm, rfl⟩ := Option.map_eq_some_iff.1 hp
  exact ⟨m, hm, rfl, hspec⟩

theorem getElem?_memberPlaces {profiles : List Profile} {projects : List ProjectSpec} {u i : Nat}
    {p : Profile} {spec : ProjectSpec}
    (hu : (memberSpots profiles projects)[u]? = some (i, p, spec)) :
    (memberPlaces profiles projects)[u]? = some (i, spec.name) := by
  rw [memberPlaces, List.getElem?_map, hu]
  rfl

/-- **The projects owned** are those expected on a backend. -/
theorem mem_memberPlaces {ms : List Memory} {projects : List ProjectSpec} {i : Nat} {n : String} :
    (i, n) ∈ memberPlaces (ms.map Memory.profile) projects
      ↔ ∃ m, ms[i]? = some m ∧ n ∈ (expectedOn m.registry.name projects).map ProjectSpec.name := by
  constructor
  · intro hplace
    obtain ⟨⟨j, p, spec⟩, hspot, hpair⟩ := List.mem_map.1 hplace
    obtain ⟨u, hu⟩ := List.getElem?_of_mem hspot
    obtain ⟨m, hm, -, hspec⟩ := getElem?_memberSpots hu
    obtain ⟨rfl, rfl⟩ := Prod.mk.inj hpair
    exact ⟨m, hm, List.mem_map_of_mem hspec⟩
  · rintro ⟨m, hm, hn⟩
    obtain ⟨spec, hspec, rfl⟩ := List.mem_map.1 hn
    refine List.mem_map.2 ⟨(i, m.profile, spec), mem_memberSpots.2 ⟨?_, hspec⟩, rfl⟩
    rw [List.getElem?_map, hm]
    rfl

/-- No project is owned twice. -/
theorem nodup_memberPlaces (profiles : List Profile) {projects : List ProjectSpec}
    (h : ∀ registry, ((expectedOn registry projects).map ProjectSpec.name).Nodup) :
    (memberPlaces profiles projects).Nodup := by
  have hplaces : memberPlaces profiles projects = (numbered profiles).flatMap fun (i, p) =>
      ((expectedOn p.registry.name projects).map ProjectSpec.name).map fun n => (i, n) := by
    simp only [memberPlaces, memberSpots, List.map_flatMap, List.map_map]
    rfl
  rw [hplaces, List.nodup_flatMap]
  refine ⟨fun ⟨i, p⟩ _ => (h p.registry.name).map fun _ _ he => (Prod.mk.inj he).2, ?_⟩
  have hfst : (numbered profiles).map Prod.fst = List.range profiles.length := by
    simp [numbered, List.map_fst_zip]
  have hdistinct : (numbered profiles).Pairwise fun a b => a.1 ≠ b.1 :=
    List.pairwise_map.1 (hfst ▸ List.nodup_range)
  refine hdistinct.imp fun {a b} hab => ?_
  rintro ⟨i, n⟩ ha hb
  obtain ⟨_, -, hi⟩ := List.mem_map.1 ha
  obtain ⟨_, -, hj⟩ := List.mem_map.1 hb
  exact hab ((Prod.mk.inj hi).1.trans (Prod.mk.inj hj).1.symm)

/-! ## The phase -/

/-- **What is to be shown of every project** in the second phase, by the parts of a `MemberAim`. -/
structure MemberPlan (F : Type) where
  calm : Prop
  Bad : ActionResult → Prop
  Passed : Memory → String → Prop
  Comes : Change Member → Except Error Unit → F → F → Prop
  Held : Nat → Memory → ProjectSpec → Holding → List Member → F → List (Change Member) → Prop

/-- **The plan can be kept** from these backends and files on. -/
structure MemberPlan.Fits {F : Type} (plan : MemberPlan F) (sh : World.Shelves F)
    (directory : Option CredentialDirectory) (projects : List ProjectSpec) (ms : List Memory)
    (files : Files) : Prop where
  comes : ∀ i m spec h, ms[i]? = some m → spec ∈ expectedOn m.registry.name projects →
    m.projects.get? spec.name = some h → ∀ c ∈ diff h.members spec.members, ∀ e,
      c.Asks m.profile (.named spec.name) e →
        sh.Settles directory (memberPlaces (ms.map Memory.profile) projects) (i, spec.name) e
          (plan.Comes c)
  aim : ∀ i m spec h, ms[i]? = some m → spec ∈ expectedOn m.registry.name projects →
    m.hasMembers = true → m.projects.get? spec.name = some h →
      MemberAim plan.calm m.failing plan.Bad (plan.Passed m) plan.Comes (plan.Held i m spec h)
      ∧ plan.Held i m spec h h.members (sh.shelf (i, spec.name) files)
        (diff h.members spec.members)

namespace World

variable {F : Type} {directory : Option CredentialDirectory} {w : World} {ms ms₁ : List Memory}
  {settings : RunSettings} {cancel : Option Nat} {projects : List ProjectSpec}
  {plan : MemberPlan F} {sh : Shelves F}

/-- The division of the second phase, from where the first one has left the world. -/
def memberDivision (w : World) (directory : Option CredentialDirectory) (settings : RunSettings)
    (cancel : Option Nat) (projects : List ProjectSpec) (ms₁ : List Memory) (sh : Shelves F) :
    Division World (Option Holding × F) :=
  byProject (w.machine directory)
    (Job.backendOf (memberJobs (w.backends.map Backend.profile) projects settings.dry)) ms₁
    (memberPlaces (ms₁.map Memory.profile) projects)
    (w.projectPhase directory settings cancel projects).world sh

theorem memberJobs_of_memory (projects : List ProjectSpec) (hw : w.backends = ms.map .memory)
    (hsetup : ms₁.map Memory.setup = ms.map Memory.setup) (hdry : settings.dry = false) :
    memberJobs (w.backends.map Backend.profile) projects settings.dry
      = (memberSpots (ms₁.map Memory.profile) projects).map
          fun s => ⟨s.1, memberUnit s.2.1 s.2.2 false⟩ := by
  rw [memberJobs_eq, profiles_of_setups hw hsetup, hdry]

/-- **A unit of the phase** meets the aim for its project. -/
theorem secure_memberJob (hw : w.backends = ms.map .memory)
    (hw₁ : (w.projectPhase directory settings cancel projects).world.backends = ms₁.map .memory)
    (hsetup : ms₁.map Memory.setup = ms.map Memory.setup) (hdry : settings.dry = false)
    (he : ∀ registry, ((expectedOn registry projects).map ProjectSpec.name).Nodup)
    (hfits : plan.Fits sh directory projects ms₁
      (w.projectPhase directory settings cancel projects).world.files) {u : Nat}
    {job : Job UnitResult}
    (hjob : (memberJobs (w.backends.map Backend.profile) projects settings.dry)[u]? = some job) :
    (memberDivision w directory settings cancel projects ms₁ sh).Secure u plan.calm
      (fun r v => ∀ i m spec, ms₁[i]? = some m →
        (memberSpots (ms₁.map Memory.profile) projects)[u]? = some (i, m.profile, spec) →
          MemberOutcome plan.calm m.profile plan.Bad (plan.Held i m spec)
            (m.projects.get? spec.name) (sh.shelf (i, spec.name)
              (w.projectPhase directory settings cancel projects).world.files) r v.1 v.2)
      job.work ((memberDivision w directory settings cancel projects ms₁ sh).view u
        (w.projectPhase directory settings cancel projects).world) := by
  have hspots := hjob
  rw [memberJobs_of_memory projects hw hsetup hdry, List.getElem?_map] at hspots
  obtain ⟨⟨i, p, spec⟩, hu, rfl⟩ := Option.map_eq_some_iff.1 hspots
  obtain ⟨m, hm, rfl, hspec⟩ := getElem?_memberSpots hu
  have hplace := getElem?_memberPlaces hu
  have hview : (memberDivision w directory settings cancel projects ms₁ sh).view u
      (w.projectPhase directory settings cancel projects).world
        = (m.projects.get? spec.name, sh.shelf (i, spec.name)
            (w.projectPhase directory settings cancel projects).world.files) := by
    simp only [memberDivision, byProject, hplace, Option.getD_some,
      holding?_of_backends hw₁ hm spec.name]
  rw [hview]
  refine (secure_memberUnit rfl (show (w.machine directory).settle = settle directory from rfl)
    hplace (Job.backendOf_eq hjob) hm (nodup_memberPlaces _ he)
    (fun h => hfits.comes i m spec h hm hspec)
    (fun hp h => hfits.aim i m spec h hm hspec hp)).mono ?_
  rintro r v hr i' m' spec' hm' hu'
  obtain ⟨rfl, -, rfl⟩ : i = i' ∧ m.profile = m'.profile ∧ spec = spec' := by
    simpa using hu.symm.trans hu'
  obtain rfl := Option.some.inj (hm.symm.trans hm')
  exact hr

/-- **The second phase** — every unit meets the aim for its project, and the other projects stay as
the first phase left them. -/
theorem memberPhase_secure (plan : MemberPlan F) (sh : Shelves F) (hw : w.backends = ms.map .memory)
    (hw₁ : (w.projectPhase directory settings cancel projects).world.backends = ms₁.map .memory)
    (hsetup : ms₁.map Memory.setup = ms.map Memory.setup)
    (htidy : sh.tidy (w.projectPhase directory settings cancel projects).world.files)
    (hc : 0 < settings.concurrent) (hdry : settings.dry = false)
    (hcalm : plan.calm → (Signals.mk settings.deadline cancel).at?
      (w.memberPhase directory settings cancel projects).now = none)
    (he : ∀ registry, ((expectedOn registry projects).map ProjectSpec.name).Nodup)
    (hfits : plan.Fits sh directory projects ms₁
      (w.projectPhase directory settings cancel projects).world.files) :
    ∃ (ms₂ : List Memory) (vals : List UnitResult),
      (w.memberPhase directory settings cancel projects).world.backends = ms₂.map .memory
      ∧ ms₂.map Memory.setup = ms₁.map Memory.setup
      ∧ sh.tidy (w.memberPhase directory settings cancel projects).world.files
      ∧ (w.memberPhase directory settings cancel projects).values.Perm vals
      ∧ ∀ i m₁ m₂, ms₁[i]? = some m₁ → ms₂[i]? = some m₂ →
        (∀ n, n ∉ (expectedOn m₁.registry.name projects).map ProjectSpec.name →
          m₂.projects.get? n = m₁.projects.get? n)
        ∧ ∀ spec ∈ expectedOn m₁.registry.name projects, ∃ r ∈ vals,
          MemberOutcome plan.calm m₁.profile plan.Bad (plan.Held i m₁ spec)
            (m₁.projects.get? spec.name)
            (sh.shelf (i, spec.name)
              (w.projectPhase directory settings cancel projects).world.files) r
            (m₂.projects.get? spec.name)
            (sh.shelf (i, spec.name)
              (w.memberPhase directory settings cancel projects).world.files) := by
  have hjobs := memberJobs_of_memory projects hw hsetup hdry
  have hunits : (memberDivision w directory settings cancel projects ms₁ sh).units
      = (memberJobs (w.backends.map Backend.profile) projects settings.dry).length := by
    rw [hjobs, List.length_map]
    exact List.length_map _
  obtain ⟨vals, hvalues, hcount, ⟨⟨ms₂, hms₂, hsetups⟩, htidy₂, hothers⟩, hend⟩ :=
    Division.phase_secure _ plan.calm _ rfl hunits hc ⟨⟨ms₁, hw₁, rfl⟩, htidy, fun _ _ => rfl⟩
      hcalm fun u job hjob => secure_memberJob hw hw₁ hsetup hdry he hfits hjob
  refine ⟨ms₂, vals, hms₂, hsetups, htidy₂, hvalues, fun i m₁ m₂ hm₁ hm₂ => ⟨fun n hn => ?_,
    fun spec hspec => ?_⟩⟩
  · rw [← holding?_of_backends hms₂ hm₂, ← holding?_of_backends hw₁ hm₁]
    refine hothers (i, n) fun hplace => hn ?_
    obtain ⟨m, hm, hmem⟩ := mem_memberPlaces.1 hplace
    exact Option.some.inj (hm.symm.trans hm₁) ▸ hmem
  · obtain ⟨u, hu⟩ := List.getElem?_of_mem (mem_memberSpots.2
      ⟨by rw [List.getElem?_map, hm₁]; rfl, hspec⟩ : (i, m₁.profile, spec) ∈ memberSpots
        (ms₁.map Memory.profile) projects)
    have hlt : u < vals.length := by
      rw [hcount, hjobs, List.length_map]
      exact (List.getElem?_eq_some_iff.1 hu).1
    have hr := hend u vals[u] (List.getElem?_eq_getElem hlt) i m₁ spec hm₁ hu
    refine ⟨vals[u], List.getElem_mem hlt, ?_⟩
    simp only [memberDivision, byProject, getElem?_memberPlaces hu, Option.getD_some] at hr
    rw [← holding?_of_backends hms₂ hm₂]
    exact hr

end World

end RegistryFleet
