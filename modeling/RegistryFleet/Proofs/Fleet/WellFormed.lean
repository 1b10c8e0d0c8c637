import RegistryFleet.Fleet.Snapshot
import Mathlib.Data.List.Nodup
import Mathlib.Tactic.Tauto

/-!
# Proofs/Fleet/WellFormed — the check of a snapshot decides whether it is well formed

Both lists of a snapshot are checked in the same way: item by item, each against those in front of
it, up to the first that has a problem. What such a check answers is read off the list alone: it
succeeds just if no item has a problem, and fails with the problem of the first item that has one.

* `Scan` — a check of a list in order; `Scan.ok_iff` and `Scan.error_iff` say what it answers.
* `Snapshot.WellFormed` — names are there, unambiguous, and known where they are referred to.
* `Snapshot.check_exact` — the check accepts the well-formed snapshots and tells the first problem
  of every other.
-/

namespace RegistryFleet

/-! ## Checks in order

`Problem front x e` says that `x` has the problem `e` behind the items `front`. -/

section Scan

variable {α : Type} {Problem : List α → α → Error → Prop} {front items rest : List α} {x : α}
  {e : Error} {result : Except Error Unit}

/-- **No item has a problem** behind those in front of it. -/
def Sound (Problem : List α → α → Error → Prop) (front items : List α) : Prop :=
  ∀ between x back, items = between ++ x :: back → ∀ e, ¬ Problem (front ++ between) x e

/-- **The first item that has a problem** has this one. -/
def FirstProblem (Problem : List α → α → Error → Prop) (front items : List α) (e : Error) : Prop :=
  ∃ between x back, items = between ++ x :: back ∧ Problem (front ++ between) x e
    ∧ Sound Problem front between

/-- **A check of a list in order**, which ends at the first problem. -/
inductive Scan (Problem : List α → α → Error → Prop) :
    List α → List α → Except Error Unit → Prop
  | done {front : List α} : Scan Problem front [] (.ok ())
  | stopped {front rest : List α} {x : α} {e : Error} (h : Problem front x e) :
    Scan Problem front (x :: rest) (.error e)
  | passed {front rest : List α} {x : α} {result : Except Error Unit}
    (h : ∀ e, ¬ Problem front x e) (hrest : Scan Problem (front ++ [x]) rest result) :
    Scan Problem front (x :: rest) result

theorem sound_nil (front : List α) : Sound Problem front [] := fun between x back h =>
  absurd h.symm (by simp)

theorem sound_cons : Sound Problem front (x :: rest)
    ↔ (∀ e, ¬ Problem front x e) ∧ Sound Problem (front ++ [x]) rest := by
  constructor
  · intro h
    refine ⟨by simpa using h [] x rest rfl, fun between y back hrest => ?_⟩
    rw [List.append_assoc]
    exact h (x :: between) y back (congrArg (x :: ·) hrest)
  · rintro ⟨hx, hrest⟩ between y back he
    cases between with
    | nil =>
      obtain ⟨rfl, -⟩ := List.cons.inj he
      simpa using hx
    | cons z between =>
      obtain ⟨rfl, hback⟩ := List.cons.inj he
      simpa using hrest between y back hback

theorem firstProblem_cons : FirstProblem Problem front (x :: rest) e
    ↔ Problem front x e
      ∨ (∀ e, ¬ Problem front x e) ∧ FirstProblem Problem (front ++ [x]) rest e := by
  constructor
  · rintro ⟨between, y, back, he, hproblem, hsound⟩
    cases between with
    | nil =>
      obtain ⟨rfl, -⟩ := List.cons.inj he
      exact .inl (by simpa using hproblem)
    | cons z between =>
      obtain ⟨rfl, hback⟩ := List.cons.inj he
      obtain ⟨hx, hsound⟩ := sound_cons.1 hsound
      exact .inr ⟨hx, between, y, back, hback, by simpa using hproblem, hsound⟩
  · rintro (hproblem | ⟨hx, between, y, back, rfl, hproblem, hsound⟩)
    · exact ⟨[], x, rest, rfl, by simpa using hproblem, sound_nil front⟩
    · exact ⟨x :: between, y, back, rfl, by simpa using hproblem, sound_cons.2 ⟨hx, hsound⟩⟩

namespace Scan

/-- **A check succeeds** just if no item has a problem. -/
theorem ok_iff (h : Scan Problem front items result) :
    result = .ok () ↔ Sound Problem front items := by
  induction h with
  | done => exact iff_of_true rfl (sound_nil _)
  | stopped h => exact iff_of_false nofun fun hsound => (sound_cons.1 hsound).1 _ h
  | passed h _ ih => rw [ih, sound_cons, and_iff_right h]

/-- **A check fails** with the problem of the first item that has one. -/
theorem error_iff (h : Scan Problem front items result)
    (hunique : ∀ front x e e', Problem front x e → Problem front x e' → e = e') :
    result = .error e ↔ FirstProblem Problem front items e := by
  induction h with
  | done => exact iff_of_false nofun fun ⟨_, _, _, he, _⟩ => absurd he.symm (by simp)
  | stopped h =>
    rw [firstProblem_cons]
    refine ⟨fun he => .inl (Except.error.inj he ▸ h), ?_⟩
    rintro (hproblem | ⟨hx, -⟩)
    · exact congrArg Except.error (hunique _ _ _ _ h hproblem)
    · exact absurd h (hx _)
  | passed h _ ih => rw [ih, firstProblem_cons, or_iff_right (h e), and_iff_right h]

end Scan

/-- Where an item is fine by itself and by its name, which no item in front of it may have, a list
without problems is one of fine items with names of their own. -/
theorem sound_iff {name : α → String} {Fine : α → Prop}
    (h : ∀ front x, (∀ e, ¬ Problem front x e) ↔ Fine x ∧ name x ∉ front.map name) :
    ∀ {items front : List α}, Sound Problem front items
      ↔ (∀ x ∈ items, Fine x) ∧ (items.map name).Nodup ∧ ∀ x ∈ items, name x ∉ front.map name
  | [], front => by simp [sound_nil]
  | x :: rest, front => by
      have ih : Sound Problem (front ++ [x]) rest ↔ _ := sound_iff h
      have hnew : (∀ y ∈ rest, name y ∉ (front ++ [x]).map name)
          ↔ name x ∉ rest.map name ∧ ∀ y ∈ rest, name y ∉ front.map name := by
        simp only [List.map_append, List.map_cons, List.map_nil, List.mem_append,
          List.mem_singleton, not_or, forall_and, List.mem_map, not_exists, not_and]
        exact and_comm
      rw [sound_cons, h, ih, hnew, List.forall_mem_cons, List.forall_mem_cons, List.map_cons,
        List.nodup_cons]
      tauto

end Scan

/-! ## Problems -/

namespace Snapshot

/-- **What is wrong with a registry** behind others. -/
inductive RegistryProblem (front : List RegistrySpec) (r : RegistrySpec) : Error → Prop
  /-- It has no name. -/
  | unnamed (hname : r.name = "") :
    RegistryProblem front r (.configuration "registry name must not be empty")
  /-- A registry in front of it has its name. -/
  | duplicate (hname : r.name ≠ "") (hseen : r.name ∈ front.map RegistrySpec.name) :
    RegistryProblem front r (.configuration ("duplicate registry name '" ++ r.name ++ "'"))

/-- A name that a project may have. -/
def ProperName (name : String) : Prop := name ≠ "" ∧ '/' ∉ name.toList

/-- **What is wrong with a project** behind others, where these registries are declared. Its name
comes first, then the names in front of it, then the registries it lists. -/
inductive ProjectProblem (declared : List String) (front : List ProjectSpec) (p : ProjectSpec) :
    Error → Prop
  /-- It has no proper name. -/
  | improper (hname : ¬ ProperName p.name) :
    ProjectProblem declared front p (.configuration ("invalid project name '" ++ p.name ++ "'"))
  /-- A project in front of it has its name. -/
  | duplicate (hname : ProperName p.name) (hseen : p.name ∈ front.map ProjectSpec.name) :
    ProjectProblem declared front p (.configuration ("duplicate project name '" ++ p.name ++ "'"))
  /-- It lists a registry that is not declared, and this is the first one. -/
  | unknown (hname : ProperName p.name) (hnew : p.name ∉ front.map ProjectSpec.name)
    (hscope : p.scope = .listed) {known back : List String} {r : String}
    (hsplit : p.registries = known ++ r :: back) (hknown : ∀ k ∈ known, k ∈ declared)
    (hr : r ∉ declared) :
    ProjectProblem declared front p (.configuration
      ("project '" ++ p.name ++ "' references unknown registry '" ++ r ++ "'"))

/-- **A well-formed snapshot** — names are there, each stands for one thing, and a listed project
refers to declared registries only. -/
structure WellFormed (s : Snapshot) : Prop where
  registry_names : ∀ r ∈ s.registries, r.name ≠ ""
  registries_distinct : (s.registries.map RegistrySpec.name).Nodup
  project_names : ∀ p ∈ s.projects, p.name ≠ "" ∧ '/' ∉ p.name.toList
  projects_distinct : (s.projects.map ProjectSpec.name).Nodup
  declared : ∀ p ∈ s.projects, p.scope = .listed →
    ∀ r ∈ p.registries, r ∈ s.registries.map RegistrySpec.name

/-- **The error of a snapshot** — the problem of its first registry that has one, or else of its
first project. -/
inductive Fails (s : Snapshot) (e : Error) : Prop
  | registry (h : FirstProblem RegistryProblem [] s.registries e)
  | project (hregistries : Sound RegistryProblem [] s.registries)
    (h : FirstProblem (ProjectProblem (s.registries.map RegistrySpec.name)) [] s.projects e)

variable {declared seen : List String} {p : ProjectSpec} {r : RegistrySpec} {e e' : Error}

/-! ## Registries -/

theorem registryProblem_unique {front : List RegistrySpec} (h : RegistryProblem front r e)
    (h' : RegistryProblem front r e') : e = e' := by
  cases h with
  | unnamed hname =>
    cases h' with
    | unnamed => rfl
    | duplicate hname' => exact absurd hname hname'
  | duplicate hname =>
    cases h' with
    | unnamed hname' => exact absurd hname' hname
    | duplicate => rfl

theorem no_registryProblem_iff (front : List RegistrySpec) (r : RegistrySpec) :
    (∀ e, ¬ RegistryProblem front r e) ↔ r.name ≠ "" ∧ r.name ∉ front.map RegistrySpec.name := by
  constructor
  · intro h
    have hname : r.name ≠ "" := fun hname => h _ (.unnamed hname)
    exact ⟨hname, fun hseen => h _ (.duplicate hname hseen)⟩
  · rintro ⟨hname, hnew⟩ e h
    cases h with
    | unnamed hname' => exact hname hname'
    | duplicate _ hseen => exact hnew hseen

/-- **The registries are checked in order.** -/
theorem scan_registries : ∀ {registries front : List RegistrySpec} {seen : List String},
    (∀ n, n ∈ seen ↔ n ∈ front.map RegistrySpec.name) →
      Scan RegistryProblem front registries (checkRegistries seen registries)
  | [], _, _, _ => .done
  | r :: rest, front, seen, hseen => by
      unfold checkRegistries
      split
      · next hname => exact .stopped (.unnamed hname)
      · next hname =>
        split
        · next hmem =>
          exact .stopped (.duplicate hname ((hseen _).1 (List.contains_iff_mem.1 hmem)))
        · next hmem =>
          have hnew : r.name ∉ front.map RegistrySpec.name := fun h =>
            hmem (List.contains_iff_mem.2 ((hseen _).2 h))
          refine .passed ((no_registryProblem_iff front r).2 ⟨hname, hnew⟩)
            (scan_registries fun n => ?_)
          simp [hseen, or_comm]

/-! ## Projects -/

/-- The first registry that is not declared, of those that a project lists. -/
theorem unknownRegistry?_eq_some_iff {name : String} : unknownRegistry? declared p = some name
    ↔ p.scope = .listed ∧ ∃ known back, p.registries = known ++ name :: back
      ∧ (∀ k ∈ known, k ∈ declared) ∧ name ∉ declared := by
  unfold unknownRegistry?
  cases p.scope with
  | everywhere => simp
  | listed =>
    simp only [List.find?_eq_some_iff_append, Bool.not_not, Bool.not_eq_true',
      List.contains_iff_mem, ← Bool.not_eq_true, true_and]
    exact ⟨fun ⟨hname, known, back, hsplit, hknown⟩ => ⟨known, back, hsplit, hknown, hname⟩,
      fun ⟨known, back, hsplit, hknown, hname⟩ => ⟨hname, known, back, hsplit, hknown⟩⟩

theorem unknownRegistry?_eq_none_iff : unknownRegistry? declared p = none
    ↔ (p.scope = .listed → ∀ r ∈ p.registries, r ∈ declared) := by
  unfold unknownRegistry?
  cases p.scope <;> simp

theorem projectProblem_unique {front : List ProjectSpec}
    (h : ProjectProblem declared front p e) (h' : ProjectProblem declared front p e') : e = e' := by
  cases h with
  | improper hname =>
    cases h' with
    | improper => rfl
    | duplicate hname' => exact absurd hname' hname
    | unknown hname' => exact absurd hname' hname
  | duplicate hname hseen =>
    cases h' with
    | improper hname' => exact absurd hname hname'
    | duplicate => rfl
    | unknown _ hnew => exact absurd hseen hnew
  | unknown hname hnew hscope hsplit hknown hr =>
    cases h' with
    | improper hname' => exact absurd hname hname'
    | duplicate _ hseen => exact absurd hseen hnew
    | unknown _ _ _ hsplit' hknown' hr' =>
      have hfirst := unknownRegistry?_eq_some_iff.2 ⟨hscope, _, _, hsplit, hknown, hr⟩
      rw [unknownRegistry?_eq_some_iff.2 ⟨hscope, _, _, hsplit', hknown', hr'⟩] at hfirst
      rw [Option.some.inj hfirst]

theorem no_projectProblem_iff (front : List ProjectSpec) (p : ProjectSpec) :
    (∀ e, ¬ ProjectProblem declared front p e)
      ↔ (ProperName p.name ∧ (p.scope = .listed → ∀ r ∈ p.registries, r ∈ declared))
        ∧ p.name ∉ front.map ProjectSpec.name := by
  constructor
  · intro h
    have hname : ProperName p.name := not_not.1 fun hname => h _ (.improper hname)
    have hnew : p.name ∉ front.map ProjectSpec.name := fun hseen => h _ (.duplicate hname hseen)
    refine ⟨⟨hname, unknownRegistry?_eq_none_iff.1 (Option.eq_none_iff_forall_ne_some.2 ?_)⟩, hnew⟩
    intro r hr
    obtain ⟨hscope, known, back, hsplit, hknown, hr⟩ := unknownRegistry?_eq_some_iff.1 hr
    exact h _ (.unknown hname hnew hscope hsplit hknown hr)
  · rintro ⟨⟨hname, hdeclared⟩, hnew⟩ e h
    cases h with
    | improper hname' => exact hname' hname
    | duplicate _ hseen => exact hnew hseen
    | unknown _ _ hscope hsplit _ hr =>
      exact hr (hdeclared hscope _ (hsplit ▸ List.mem_append_right _ List.mem_cons_self))

theorem properName_iff {name : String} :
    ProperName name ↔ ¬ (name = "" ∨ name.toList.contains '/' = true) := by
  rw [ProperName, not_or, List.contains_iff_mem]

/-- **The projects are checked in order.** -/
theorem scan_projects : ∀ {projects front : List ProjectSpec} {seen : List String},
    (∀ n, n ∈ seen ↔ n ∈ front.map ProjectSpec.name) →
      Scan (ProjectProblem declared) front projects (checkProjects declared seen projects)
  | [], _, _, _ => .done
  | p :: rest, front, seen, hseen => by
      unfold checkProjects
      split
      · next hname => exact .stopped (.improper fun h => properName_iff.1 h hname)
      · next hname =>
        have hname := properName_iff.2 hname
        split
        · next hmem =>
          exact .stopped (.duplicate hname ((hseen _).1 (List.contains_iff_mem.1 hmem)))
        · next hmem =>
          have hnew : p.name ∉ front.map ProjectSpec.name := fun h =>
            hmem (List.contains_iff_mem.2 ((hseen _).2 h))
          split
          · next r hr =>
            obtain ⟨hscope, known, back, hsplit, hknown, hr⟩ := unknownRegistry?_eq_some_iff.1 hr
            exact .stopped (.unknown hname hnew hscope hsplit hknown hr)
          · next hr =>
            have hdeclared := unknownRegistry?_eq_none_iff.1 hr
            refine .passed ((no_projectProblem_iff front p).2 ⟨⟨hname, hdeclared⟩, hnew⟩)
              (scan_projects fun n => ?_)
            simp [hseen, or_comm]

/-! ## The snapshot -/

/-- A snapshot is well formed just if neither list of it has a problem. -/
theorem wellFormed_iff (s : Snapshot) : s.WellFormed
    ↔ Sound RegistryProblem [] s.registries
      ∧ Sound (ProjectProblem (s.registries.map RegistrySpec.name)) [] s.projects := by
  rw [sound_iff no_registryProblem_iff, sound_iff no_projectProblem_iff]
  constructor
  · rintro ⟨hregistries, hdistinct, hprojects, hdistinct', hdeclared⟩
    exact ⟨⟨hregistries, hdistinct, fun _ _ => List.not_mem_nil⟩,
      fun p hp => ⟨hprojects p hp, hdeclared p hp⟩, hdistinct', fun _ _ => List.not_mem_nil⟩
  · rintro ⟨⟨hregistries, hdistinct, -⟩, hprojects, hdistinct', -⟩
    exact ⟨hregistries, hdistinct, fun p hp => (hprojects p hp).1, hdistinct',
      fun p hp => (hprojects p hp).2⟩

theorem scan_checkRegistries (s : Snapshot) :
    Scan RegistryProblem [] s.registries (checkRegistries [] s.registries) :=
  scan_registries fun n => by simp

theorem scan_checkProjects (s : Snapshot) :
    Scan (ProjectProblem (s.registries.map RegistrySpec.name)) [] s.projects
      (checkProjects (s.registries.map RegistrySpec.name) [] s.projects) :=
  scan_projects fun n => by simp

/-- **The check accepts the well-formed snapshots.** -/
theorem check_eq_ok_iff {s : Snapshot} : s.check = .ok () ↔ s.WellFormed := by
  rw [wellFormed_iff, ← (scan_checkRegistries s).ok_iff, ← (scan_checkProjects s).ok_iff]
  unfold check
  cases checkRegistries [] s.registries with
  | ok _ => exact (and_iff_right rfl).symm
  | error e => simp [bind, Except.bind]

/-- **The check tells the first problem** of a snapshot that has one. -/
theorem check_eq_error_iff {s : Snapshot} : s.check = .error e ↔ s.Fails e := by
  have hfails : s.Fails e ↔ checkRegistries [] s.registries = .error e
      ∨ checkRegistries [] s.registries = .ok ()
        ∧ checkProjects (s.registries.map RegistrySpec.name) [] s.projects = .error e := by
    rw [(scan_checkRegistries s).error_iff fun _ _ _ _ => registryProblem_unique,
      (scan_checkRegistries s).ok_iff,
      (scan_checkProjects s).error_iff fun _ _ _ _ => projectProblem_unique]
    exact ⟨fun h => h.casesOn .inl fun hsound h => .inr ⟨hsound, h⟩,
      fun h => h.elim .registry fun ⟨hsound, h⟩ => .project hsound h⟩
  rw [hfails]
  unfold check
  cases checkRegistries [] s.registries with
  | ok _ => simp [bind, Except.bind]
  | error e => simp [bind, Except.bind]

/-- **The check decides whether a snapshot is well formed** — it succeeds just if every registry and
every project has a name of its own, those of projects being single path segments, and every
registry that a listed project refers to is declared. It fails just with the problem of the first
registry that has one, or else of the first project; of a project, the name is looked at first,
then the names in front of it, then the registries it lists. -/
theorem check_exact (s : Snapshot) :
    (s.check = .ok () ↔ s.WellFormed) ∧ ∀ e, s.check = .error e ↔ s.Fails e :=
  ⟨check_eq_ok_iff, fun _ => check_eq_error_iff⟩

/-- A project without a proper name comes first, although the one in front of it is fine and the one
behind it has its name. -/
example : (Snapshot.mk [] [⟨"os", .everywhere, ["hub"], [], none⟩,
    ⟨"a/b", .everywhere, [], [], none⟩, ⟨"os", .everywhere, [], [], none⟩]).check
      = .error (.configuration "invalid project name 'a/b'") := by decide

end Snapshot

end RegistryFleet
