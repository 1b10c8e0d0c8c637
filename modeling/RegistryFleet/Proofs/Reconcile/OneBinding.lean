import RegistryFleet.Proofs.Fleet.Snapshot
import RegistryFleet.Proofs.Reconcile.Course
import RegistryFleet.Proofs.Reconcile.MemberPhase
import RegistryFleet.Proofs.Reconcile.ProjectPhase
import RegistryFleet.Proofs.Vendor.Lookup

/-!
# Proofs/Reconcile/OneBinding — no member is ever bound twice

A change of role unbinds a name and binds it again. That the name is not bound twice in between is
an invariant of the loop over the changes: when the removals are over, a name that is still bound
and is to be bound again is one whose removal failed, and such a binding is passed over. Nothing
else binds, and an interruption only leaves changes out.

* `Memory.BindsOnce.serve` — a call to a backend keeps the names apart, unless it binds a name that
  is bound.
* `Rebinding` — the invariant of the loop.
* `World.bindsOnce_of_run` — no project binds a name twice at any step of any run.
-/

namespace RegistryFleet

/-! ## Names bound in a project -/

/-- The names bound in a project, if it is there. -/
def bindings (o : Option Holding) : List String := o.elim [] fun h => h.members.map Member.name

/-- A member is gone once it is removed, if no name is bound twice. -/
theorem name_not_mem_erase {members : List Member} {b : Member}
    (h : (members.map Member.name).Nodup) (hb : b ∈ members) :
    b.name ∉ (members.erase b).map Member.name := fun hname => by
  obtain ⟨a, ha, he⟩ := List.mem_map.1 hname
  have hmem := ((List.Nodup.of_map _ h).mem_erase_iff).1 ha
  exact hmem.1 (List.inj_on_of_nodup_map h hmem.2 hb he)

/-- Does the call bind a member? -/
def Call.binds : Call → Bool
  | .assign .. => true
  | _ => false

namespace Memory

variable {m : Memory} {c : Call}

/-- **No project binds a name twice.** -/
def BindsOnce (m : Memory) : Prop :=
  ∀ name h, m.projects.get? name = some h → (h.members.map Member.name).Nodup

instance : DecidablePred BindsOnce := fun m =>
  decidable_of_iff (∀ e ∈ m.projects.entries, (e.2.members.map Member.name).Nodup)
    ⟨fun h _ _ hh => h _ ((Keyed.mem_entries_iff m.projects.sorted).2 hh),
      fun h _ he => h _ _ ((Keyed.mem_entries_iff m.projects.sorted).1 he)⟩

theorem BindsOnce.insert (hm : m.BindsOnce) (name : String) (h : Holding)
    (hh : (h.members.map Member.name).Nodup) (entry : String) :
    (m.record (m.projects.insert name h) entry).BindsOnce := by
  intro q g (hg : (m.projects.insert name h).get? q = some g)
  rcases eq_or_ne q name with rfl | hne
  · rw [Keyed.get?_insert_self] at hg
    exact Option.some.inj hg ▸ hh
  · rw [Keyed.get?_insert_of_ne hne] at hg
    exact hm q g hg

theorem BindsOnce.erase (hm : m.BindsOnce) (name entry : String) :
    (m.record (m.projects.erase name) entry).BindsOnce := by
  intro q g (hg : (m.projects.erase name).get? q = some g)
  rcases eq_or_ne q name with rfl | hne
  · rw [Keyed.get?_erase_self] at hg
    cases hg
  · rw [Keyed.get?_erase_of_ne hne] at hg
    exact hm q g hg

/-- **A call keeps the names of a project apart**, unless it binds a name that is bound. -/
theorem BindsOnce.serve (hm : m.BindsOnce) (hc : ∀ p b, c = .assign p b →
    b.name ∉ bindings (m.projects.get? p.name)) : (serve c m).2.BindsOnce := by
  cases c with
  | deleteRepository r =>
    rw [serve_deleteRepository]
    cases hp : m.projects.get? r.project with
    | none => exact hm
    | some h =>
      dsimp only
      split
      · exact hm.insert r.project ⟨h.repositories.filter (· != r.name), h.members⟩
          (show (h.members.map Member.name).Nodup from hm _ h hp) _
      · exact hm
  | removeProject p =>
    rw [serve_removeProject]
    split
    · exact hm.erase _ _
    · exact hm
  | createProject name =>
    rw [serve_createProject]
    split
    · exact hm
    · exact hm.insert name .empty List.nodup_nil _
  | assign p b =>
    have hnew := hc p b rfl
    rw [serve_assign]
    split
    · exact hm
    · cases hp : m.projects.get? p.name with
      | none => exact hm
      | some h =>
        rw [hp] at hnew
        refine hm.insert p.name ⟨h.repositories, h.members ++ [b]⟩ ?_
          (bindingEntry "assign_member" p b)
        rw [List.map_append, List.map_singleton]
        exact List.nodup_append.2 ⟨hm _ h hp, List.nodup_singleton _, fun x hx y hy hxy =>
          hnew (List.mem_singleton.1 hy ▸ hxy ▸ hx)⟩
  | unassign p b =>
    rw [serve_unassign]
    split
    · exact hm
    · cases hp : m.projects.get? p.name with
      | none => exact hm
      | some h =>
        dsimp only
        split
        · exact hm.insert p.name ⟨h.repositories, h.members.erase b⟩
            ((hm _ h hp).sublist (List.erase_sublist.map _)) _
        · exact hm
  | _ => exact hm

end Memory

/-! ## Calls that never bind -/

/-- **No call of the tree binds a member.** -/
abbrev Calls.BindsNone {α : Type} (t : Calls α) : Prop :=
  t.Asks (fun _ _ => True) (·.binds = false)

theorem Calls.bindsNone_deleteRepositories : ∀ rs : List Repository,
    (deleteRepositories rs).BindsNone
  | [] => trivial
  | r :: rs => Asks.andThen (t := one (.deleteRepository r)) (asks_one rfl) fun _ =>
      bindsNone_deleteRepositories rs

theorem Calls.bindsNone_delete (p : Profile) (project : Project) :
    (p.delete project).BindsNone := by
  refine Asks.andThen (t := one (.listRepositories project)) (asks_one rfl) fun repositories => ?_
  split
  · trivial
  · exact (bindsNone_deleteRepositories repositories).andThen fun _ => asks_one rfl

/-- **Changes of the project set bind no member.** -/
theorem Action.bindsNone_projectChange (p : Profile) (c : Change String) :
    ((Action.ofProjectChange c).perform p).BindsNone := by
  cases c with
  | add name =>
    refine Calls.Asks.andThen ?_ fun _ => trivial
    unfold Profile.create
    split
    · exact Calls.asks_one rfl
    · trivial
  | remove name =>
    refine Calls.Asks.bind (fun answer => ?_) (Calls.asks_one rfl)
    split
    · exact (Calls.bindsNone_delete p _).andThen fun _ => trivial
    · trivial
    · trivial

/-! ## The loop over the changes of the members -/

/-- **The invariant of the loop** — among the removals and bindings that are still to come, no two
bindings are of one name, and a name that is bound is bound again only after a removal, unless one
has failed. -/
structure Rebinding (s : Progress) (names : List String) (removals additions : List Member) :
    Prop where
  bound : names.Nodup
  apart : (additions.map Member.name).Nodup
  cleared : ∀ b ∈ additions, b.name ∈ names →
    b.name ∈ s.stuck ∨ ∃ r ∈ removals, r.name = b.name

namespace Rebinding

variable {s : Progress} {names : List String} {b : Member} {removals additions : List Member}

/-- Before the first change: an expected member whose name is bound replaces one that is not
expected. -/
theorem start {observed expected : List Member} (hobserved : (observed.map Member.name).Nodup)
    (hexpected : (expected.map Member.name).Nodup) :
    Rebinding s (observed.map Member.name) (observed.filter fun a => !expected.contains a)
      (expected.filter fun e => !observed.contains e) where
  bound := hobserved
  apart := hexpected.sublist (List.filter_sublist.map _)
  cleared b hb hname := by
    obtain ⟨he, hnew⟩ := List.mem_filter.1 hb
    obtain ⟨a, ha, haname⟩ := List.mem_map.1 hname
    refine .inr ⟨a, List.mem_filter.2 ⟨ha, ?_⟩, haname⟩
    simp only [List.contains_eq_mem, Bool.not_eq_true', decide_eq_false_iff_not] at hnew ⊢
    exact fun hexp => hnew (List.inj_on_of_nodup_map hexpected hexp he haname ▸ ha)

/-- A removal that was carried out. -/
theorem removed {names' : List String} (h : Rebinding s names (b :: removals) additions)
    (hsub : names'.Sublist names) (hgone : b.name ∉ names') :
    Rebinding s names' removals additions where
  bound := h.bound.sublist hsub
  apart := h.apart
  cleared a ha hname := by
    refine (h.cleared a ha (hsub.subset hname)).imp_right fun ⟨r, hr, hrname⟩ => ?_
    rcases List.mem_cons.1 hr with rfl | hr
    · exact absurd (hrname ▸ hname) hgone
    · exact ⟨r, hr, hrname⟩

/-- A removal that failed. -/
theorem failed (h : Rebinding s names (b :: removals) additions) {s' : Progress}
    (hs : s'.stuck = b.name :: s.stuck) : Rebinding s' names removals additions where
  bound := h.bound
  apart := h.apart
  cleared a ha hname := by
    rw [hs]
    rcases h.cleared a ha hname with hstuck | ⟨r, hr, hrname⟩
    · exact .inl (List.mem_cons_of_mem _ hstuck)
    · rcases List.mem_cons.1 hr with rfl | hr
      · exact .inl (hrname ▸ List.mem_cons_self)
      · exact .inr ⟨r, hr, hrname⟩

/-- When the removals are over, a name that is bound is bound again only where a removal failed. -/
theorem not_mem (h : Rebinding s names [] (b :: additions)) (hb : b.name ∉ s.stuck) :
    b.name ∉ names := fun hname => by
  rcases h.cleared b List.mem_cons_self hname with hstuck | ⟨r, hr, -⟩
  · exact hb hstuck
  · cases hr

/-- A binding that was left out or failed. -/
theorem passed (h : Rebinding s names [] (b :: additions)) {s' : Progress}
    (hs : s'.stuck = s.stuck) : Rebinding s' names [] additions where
  bound := h.bound
  apart := (List.nodup_cons.1 h.apart).2
  cleared a ha := hs ▸ h.cleared a (List.mem_cons_of_mem _ ha)

/-- A binding that was carried out. -/
theorem added (h : Rebinding s names [] (b :: additions)) (hb : b.name ∉ names) :
    Rebinding s (names ++ [b.name]) [] additions where
  bound := List.nodup_append.2 ⟨h.bound, List.nodup_singleton _, fun x hx y hy hxy =>
    hb (List.mem_singleton.1 hy ▸ hxy ▸ hx)⟩
  apart := (List.nodup_cons.1 h.apart).2
  cleared a ha hname := by
    have hne : a.name ≠ b.name := fun he =>
      (List.nodup_cons.1 h.apart).1 (he ▸ List.mem_map_of_mem ha)
    refine h.cleared a (List.mem_cons_of_mem _ ha) ?_
    simpa [hne] using hname

/-- What has been asked and settled does not count. -/
theorem congr (h : Rebinding s names removals additions) {s' : Progress}
    (hs : s'.stuck = s.stuck) : Rebinding s' names removals additions :=
  ⟨h.bound, h.apart, hs ▸ h.cleared⟩

end Rebinding

theorem stuck_failureOutcome (s : Progress) (a : Action) {err : Error}
    (h : err.isRecoverable = true) :
    (failureOutcome s a err).2.stuck = a.unbound?.toList ++ s.stuck := by
  rw [failureOutcome, Error.isCapabilityGap_of_isRecoverable h]
  rfl

namespace World

/-! ## Worlds that bind no name twice -/

/-- **No project of any backend in memory binds a name twice.** -/
def BindsOnce (w : World) : Prop := ∀ i m, w.memory? i = some m → m.BindsOnce

variable {w : World} {i : Nat} {m : Memory}

theorem bindsOnce_ofMemories {ms : List Memory} (h : ∀ m ∈ ms, m.BindsOnce) :
    (ofMemories ms).BindsOnce := fun i m hm => by
  rw [memory?_of_backends rfl] at hm
  exact h m (List.mem_of_getElem? hm)

theorem BindsOnce.serve (hw : w.BindsOnce) (hm : w.memory? i = some m) {c : Call}
    (hc : (Memory.serve c m).2.BindsOnce) : (serve i c w).2.BindsOnce := by
  intro j m' hm'
  rw [memory?_serve hm] at hm'
  split at hm'
  · exact Option.some.inj hm' ▸ hc
  · exact hw j m' hm'

/-- The units of a phase, each with what it sees, in a world that binds no name twice. -/
def bindingOnce {V : Type} (machine : Machine World) (backendOf : Nat → Nat)
    (setups : List Memory) (units : Nat) (view : Nat → World → V) : Division World V where
  machine := machine
  backendOf := backendOf
  units := units
  sound w := w.InMemory setups ∧ w.BindsOnce
  view := view

variable {machine : Machine World} {backendOf : Nat → Nat} {setups : List Memory} {units u : Nat}
  {α : Type} {directory : Option CredentialDirectory} {dry : Bool} {p : Profile} {m₀ : Memory}
  {projects : List ProjectSpec}

/-- The units of the first phase, which see nothing. -/
abbrev blindOnce (machine : Machine World) (backendOf : Nat → Nat) (setups : List Memory)
    (units : Nat) : Division World Unit :=
  bindingOnce machine backendOf setups units fun _ _ => ()

theorem acts_settle_once {V : Type} {view : Nat → World → V}
    (hsettle : machine.settle = settle directory)
    (hview : ∀ u w files, view u { w with files := files } = view u w) {e : Effect}
    {Q : Except Error Unit → V → Prop} {v : V} (hQ : ∀ out, Q out v) :
    (bindingOnce machine backendOf setups units view).Acts u (machine.settle e) Q v := by
  rintro w hsound rfl
  rw [hsettle, settle_eq]
  refine ⟨⟨hsound, fun v _ _ => hview v w _⟩, ?_⟩
  change Q _ (view u _)
  rw [hview]
  exact hQ _

/-! ## The first phase -/

theorem acts_bindsNone (hserve : machine.serve = serve) (hm₀ : setups[backendOf u]? = some m₀)
    {c : Call} (hc : c.binds = false) {Q : c.Answer → Unit → Prop} (hQ : ∀ a, Q a ()) :
    (blindOnce machine backendOf setups units).Acts u (machine.serve (backendOf u) c) Q () := by
  rintro w ⟨hw, honce⟩ -
  obtain ⟨ms, hms, hsetups⟩ := id hw
  obtain ⟨m, hm, -⟩ := Memory.getElem?_of_setups hsetups.symm hm₀
  have hmem : w.memory? (backendOf u) = some m := (memory?_of_backends hms _).trans hm
  have hkept : (Memory.serve c m).2.BindsOnce := (honce _ m hmem).serve fun _ _ he => by
    rw [he] at hc
    cases hc
  rw [hserve]
  exact ⟨⟨⟨hw.serve hmem c, honce.serve hmem hkept⟩, fun _ _ _ => rfl⟩, hQ _⟩

theorem secure_actingNone (hserve : machine.serve = serve)
    (hm₀ : setups[backendOf u]? = some m₀) {Q : α → Unit → Prop} (hQ : ∀ a, Q a ()) :
    ∀ {t : Calls α}, t.BindsNone →
      (blindOnce machine backendOf setups units).Secure u False Q (Work.acting t) ()
  | .done a, _ => hQ a
  | .ask _ _, ht => acts_bindsNone hserve hm₀ ht.1 fun a =>
      secure_actingNone hserve hm₀ hQ (ht.2 a trivial)

/-- **The unit of a registry binds no member.** -/
theorem secure_projectUnit_once (hserve : machine.serve = serve)
    (hsettle : machine.settle = settle directory) (hm₀ : setups[backendOf u]? = some m₀) :
    (blindOnce machine backendOf setups units).Secure u False (fun _ _ => True)
      (projectUnit p projects dry) () := by
  intro signal _
  cases signal with
  | some i => trivial
  | none =>
    refine Division.Secure.bind (w := Work.observing (.one .listProjects)) ?_
    refine Division.Secure.observing (c := .listProjects) (fun _ _ => trivial)
      (acts_bindsNone (c := .listProjects) hserve hm₀ rfl fun answer => ?_)
    match answer with
    | .error e => trivial
    | .ok observed =>
      refine Division.Secure.bind (Division.Secure.mono (fun _ _ _ => trivial)
        (Division.secure_runActions (I := fun _ _ rest _ =>
          ∀ a ∈ rest, ∃ c, a = Action.ofProjectChange c)
          (fun a ha => ?_) fun done s a rest v hrest => ?_))
      · obtain ⟨c, -, rfl⟩ := List.mem_map.1 ha
        exact ⟨c, rfl⟩
      · obtain ⟨⟨c, rfl⟩, hrests⟩ := List.forall_mem_cons.1 hrest
        refine Division.secure_runAction (fun _ => hrests) (fun _ _ => hrests)
          (fun _ _ => hrests) (fun _ _ _ => hrests) fun _ _ _ => ?_
        refine secure_actingNone hserve hm₀ (fun r => ?_) (Action.bindsNone_projectChange p c)
        cases r with
        | error err => exact hrests
        | ok e => exact .ok (acts_settle_once hsettle (fun _ _ _ => rfl) fun _ => hrests)

/-! ## The second phase -/

/-- What a unit of the second phase sees: the project that it owns. -/
def ownProject (places : List (Nat × String)) (u : Nat) (w : World) : Option Holding :=
  w.holding? ((places[u]?).getD (0, ""))

variable {places : List (Nat × String)} {name : String} {o : Option Holding} {h : Holding}
  {b : Member}

/-- The units of the second phase, each of which owns a project. -/
abbrev ownersOnce (machine : Machine World) (backendOf : Nat → Nat) (setups : List Memory)
    (places : List (Nat × String)) : Division World (Option Holding) :=
  bindingOnce machine backendOf setups places.length (ownProject places)

/-- A unit of the second phase: what it owns, and that no other owns it. -/
structure Owns (machine : Machine World) (backendOf : Nat → Nat) (setups : List Memory)
    (places : List (Nat × String)) (u : Nat) (name : String) : Prop where
  serve : machine.serve = World.serve
  settle : ∃ directory, machine.settle = World.settle directory
  place : places[u]? = some (backendOf u, name)
  backend : ∃ m₀, setups[backendOf u]? = some m₀
  nodup : places.Nodup

/-- What the backend of a unit answers about its project, as long as it binds no name twice. -/
theorem Owns.acts (hown : Owns machine backendOf setups places u name) {c : Call}
    (hc : ∀ q, c.changes = some q → q = name)
    (honce : ∀ m : Memory, m.BindsOnce → m.projects.get? name = o →
      (Memory.serve c m).2.BindsOnce) {Q : c.Answer → Option Holding → Prop}
    (hQ : ∀ m : Memory, m.projects.get? name = o →
      Q (Memory.serve c m).1 ((Memory.serve c m).2.projects.get? name)) :
    (ownersOnce machine backendOf setups places).Acts u (machine.serve (backendOf u) c) Q o := by
  obtain ⟨m₀, hm₀⟩ := hown.backend
  rintro w ⟨hw, hw'⟩ hview
  have hacts : (byProject machine backendOf setups places w .blank).Acts u
      (machine.serve (backendOf u) c) (fun a v => Q a v.1) (o, ()) :=
    acts_call hown.serve hown.place rfl hm₀ hown.nodup hc fun m _ hm => hQ m hm
  obtain ⟨⟨⟨hsound, -⟩, hothers⟩, hpost⟩ :=
    hacts w ⟨hw, trivial, fun _ _ => rfl⟩ (Prod.ext hview rfl)
  obtain ⟨ms, hms, hsetups⟩ := hw
  obtain ⟨m, hm, -⟩ := Memory.getElem?_of_setups hsetups.symm hm₀
  have hmem : w.memory? (backendOf u) = some m := (memory?_of_backends hms _).trans hm
  have hholds : m.projects.get? name = o := by
    rw [← hview, ← holding?_of_backends hms hm]
    simp only [bindingOnce, ownProject, hown.place, Option.getD_some]
  refine ⟨⟨⟨hsound, ?_⟩, fun v hv hne => congrArg Prod.fst (hothers v hv hne)⟩, hpost⟩
  rw [hown.serve]
  exact hw'.serve hmem (honce m (hw' _ m hmem) hholds)

/-- A call that only looks. -/
theorem Owns.acts_looking (hown : Owns machine backendOf setups places u name) {c : Call}
    (hc : ∀ m, (Memory.serve c m).2 = m) {Q : c.Answer → Option Holding → Prop}
    (hchanges : c.changes = none)
    (hQ : ∀ m : Memory, m.projects.get? name = o → Q (Memory.serve c m).1 o) :
    (ownersOnce machine backendOf setups places).Acts u (machine.serve (backendOf u) c) Q o := by
  refine hown.acts (fun q hq => nomatch hchanges.symm.trans hq) (fun m hm _ => ?_) fun m hm => ?_
  · rw [hc]
    exact hm
  · rw [hc, hm]
    exact hQ m hm

/-- A unit looks its own project up. -/
theorem Owns.lookUp (hown : Owns machine backendOf setups places u name)
    {t : Project → Calls (Except Error α)} {Q : Except Error α → Option Holding → Prop}
    (herror : ∀ err, err.isRecoverable = true → Q (.error err) o)
    (ht : (ownersOnce machine backendOf setups places).Secure u False Q
      (Work.acting (t (.named name))) o) :
    (ownersOnce machine backendOf setups places).Secure u False Q
      (Work.acting ((Action.lookUp p name).andThen t)) o := by
  refine Division.Secure.acting (hown.acts_looking (c := .findProject name)
    (fun m => by rw [Memory.serve_findProject]) rfl fun m hm => ?_)
  rw [Memory.serve_findProject, hm]
  cases o with
  | none => exact herror _ rfl
  | some h => exact ht

/-- **A removal** that is carried out leaves the name unbound; one that fails leaves the project as
it is. -/
theorem Owns.unbind (hown : Owns machine backendOf setups places u name)
    (hp : p.hasMembers = true) (ho : (bindings o).Nodup)
    {Q : Except Error Effect → Option Holding → Prop}
    (herror : ∀ err, err.isRecoverable = true → Q (.error err) o)
    (hdone : ∀ e o', (bindings o').Sublist (bindings o) → b.name ∉ bindings o' → Q (.ok e) o') :
    (ownersOnce machine backendOf setups places).Secure u False Q
      (Work.acting ((Action.unbind name b).perform p)) o := by
  rw [Action.perform, Profile.withMembers, if_pos hp]
  refine hown.lookUp herror (Division.Secure.acting (hown.acts (c := .unassign (.named name) b)
    (fun q hq => (Option.some.inj hq).symm) (fun m hm _ => hm.serve fun _ _ he => by cases he)
    fun m hm => ?_))
  rw [Memory.serve_unassign]
  split
  · rw [hm]
    exact herror _ rfl
  · split
    · rw [hm]
      exact herror _ rfl
    · next h hh =>
      obtain rfl : o = some h := hm.symm.trans hh
      split
      · next hmem =>
        have hbound : b ∈ h.members := List.contains_iff_mem.1 hmem
        change Q _ ((m.projects.insert name { h with members := h.members.erase b }).get? name)
        rw [Keyed.get?_insert_self]
        exact hdone _ _ (List.erase_sublist.map _) (name_not_mem_erase ho hbound)
      · rw [hm]
        exact herror _ rfl

/-- **A binding** that is carried out adds the name; one that fails leaves the project as it is. -/
theorem Owns.bind (hown : Owns machine backendOf setups places u name)
    (hp : p.hasMembers = true) (hb : b.name ∉ bindings o)
    {Q : Except Error Effect → Option Holding → Prop}
    (herror : ∀ err, err.isRecoverable = true → Q (.error err) o)
    (hdone : ∀ e o', bindings o' = bindings o ++ [b.name] → Q (.ok e) o') :
    (ownersOnce machine backendOf setups places).Secure u False Q
      (Work.acting ((Action.bind name b).perform p)) o := by
  rw [Action.perform, Profile.withMembers, if_pos hp]
  refine hown.lookUp herror (Division.Secure.acting (hown.acts (c := .assign (.named name) b)
    (fun q hq => (Option.some.inj hq).symm) (fun m hm hholds => hm.serve ?_) fun m hm => ?_))
  · rintro _ _ ⟨⟩
    rw [show (Project.named name).name = name from rfl, hholds]
    exact hb
  rw [Memory.serve_assign]
  split
  · rw [hm]
    exact herror _ rfl
  · split
    · rw [hm]
      exact herror _ rfl
    · next h hh =>
      obtain rfl : o = some h := hm.symm.trans hh
      change Q _ ((m.projects.insert name { h with members := h.members ++ [b] }).get? name)
      rw [Keyed.get?_insert_self]
      refine hdone _ _ ?_
      rw [bindings, Option.elim_some, List.map_append]
      rfl

/-- **What is left of the changes of a project** — nothing more is performed, or the removals and
bindings that are still to come keep the names apart. -/
def Pending (dry : Bool) (name : String) (s : Progress) (rest : List Action) (o : Option Holding) :
    Prop :=
  dry = true ∨ s.halted = true ∨ ∃ removals additions,
    rest = removals.map (Action.unbind name) ++ additions.map (Action.bind name)
      ∧ Rebinding s (bindings o) removals additions

/-- **One change of the members of a project.** -/
theorem Owns.change (hown : Owns machine backendOf setups places u name)
    (hp : p.hasMembers = true) {s : Progress} {a : Action} {rest : List Action}
    (hpending : Pending dry name s (a :: rest) o) :
    (ownersOnce machine backendOf setups places).Secure u False
      (fun r o' => Pending dry name r.2 rest o')
      (runAction Work.interrupted (fun a => Work.acting (a.perform p)) Work.settling dry s a)
      o := by
  obtain ⟨directory, hsettle⟩ := hown.settle
  have hsettled : ∀ {e : Effect} {Q : Except Error Unit → Option Holding → Prop}
      {o' : Option Holding}, (∀ out, Q out o') →
        (ownersOnce machine backendOf setups places).Acts u (machine.settle e) Q o' :=
    fun hQ => acts_settle_once hsettle (fun _ _ _ => rfl) hQ
  refine Division.secure_runAction (fun h => .inr (.inl h)) (fun _ _ => .inr (.inl rfl))
    (fun _ h => .inl h) (fun hhalted hdry hblocks => ?_) (fun hhalted hdry hfree => ?_)
  all_goals
    rcases hpending with h | h | ⟨removals, additions, hrest, hu⟩
    · exact nomatch hdry.symm.trans h
    · exact nomatch hhalted.symm.trans h
  · rcases removals with _ | ⟨b, removals⟩
    · obtain ⟨b, additions, rfl, rfl, rfl⟩ := List.map_eq_cons_iff.1 hrest.symm
      exact .inr (.inr ⟨[], additions, rfl, hu.passed rfl⟩)
    · obtain ⟨rfl, -⟩ := List.cons.inj hrest
      cases hblocks
  · rcases removals with _ | ⟨b, removals⟩
    · obtain ⟨b, additions, rfl, rfl, rfl⟩ := List.map_eq_cons_iff.1 hrest.symm
      have hnew : b.name ∉ bindings o := hu.not_mem fun hstuck =>
        nomatch hfree.symm.trans (List.contains_iff_mem.2 hstuck : s.stuck.contains b.name = true)
      refine hown.bind hp hnew (fun err herr => ?_) (fun e o' ho' => .ok (hsettled fun out => ?_))
      · exact .inr (.inr ⟨[], additions, rfl, hu.passed (stuck_failureOutcome s _ herr)⟩)
      · exact .inr (.inr ⟨[], additions, rfl, ho' ▸ (hu.added hnew).congr rfl⟩)
    · obtain ⟨rfl, rfl⟩ := List.cons.inj hrest
      refine hown.unbind hp hu.bound (fun err herr => ?_)
        (fun e o' hsub hgone => .ok (hsettled fun out => ?_))
      · exact .inr (.inr ⟨removals, additions, rfl, hu.failed (stuck_failureOutcome s _ herr)⟩)
      · exact .inr (.inr ⟨removals, additions, rfl, (hu.removed hsub hgone).congr rfl⟩)

/-- **The changes of the members of a project**, one after the other. -/
theorem Owns.memberActions {spec : ProjectSpec}
    (hown : Owns machine backendOf setups places u spec.name) (hp : p.hasMembers = true)
    (hexpected : (spec.members.map Member.name).Nodup) {observed : List Member}
    (hobserved : dry = true ∨ (observed.map Member.name).Nodup
      ∧ bindings o = observed.map Member.name) :
    (ownersOnce machine backendOf setups places).Secure u False (fun _ _ => True)
      (memberActions p spec dry observed) o := by
  refine Division.Secure.bind (Division.Secure.mono (fun _ _ _ => trivial)
    (Division.secure_runActions (I := fun _ s rest o => Pending dry spec.name s rest o) ?_
      fun done s a rest v hpending => hown.change hp hpending))
  rcases hobserved with hdry | ⟨hnodup, ho⟩
  · exact .inl hdry
  · refine .inr (.inr ⟨_, _, ?_, ho ▸ Rebinding.start hnodup hexpected⟩)
    rw [Action.memberSteps, diff, List.map_append, List.map_map, List.map_map]
    rfl

/-- **The unit of a project keeps its names apart.** -/
theorem Owns.memberUnit {spec : ProjectSpec}
    (hown : Owns machine backendOf setups places u spec.name)
    (hexpected : (spec.members.map Member.name).Nodup) (ho : (bindings o).Nodup) :
    (ownersOnce machine backendOf setups places).Secure u False (fun _ _ => True)
      (memberUnit p spec dry) o := by
  intro signal _
  cases signal with
  | some i => trivial
  | none =>
    change Division.Secure _ u False _ (ite _ _ _) o
    split
    · trivial
    next hp =>
    have hp : p.hasMembers = true := by simpa using hp
    refine Division.Secure.bind (w := Work.observing (observeMembers spec.name)) ?_
    refine Division.Secure.observing (c := .findProject spec.name) (fun _ _ => trivial)
      (hown.acts_looking (c := .findProject spec.name)
        (fun m => by rw [Memory.serve_findProject]) rfl fun m hm => ?_)
    rw [Memory.serve_findProject, hm]
    cases o with
    | none =>
      change Division.Secure _ u False _ (ite _ _ _) none
      split
      · next hdry => exact hown.memberActions hp hexpected (.inl hdry)
      · trivial
    | some h =>
      refine Division.Secure.observing (c := .members (.named spec.name)) (fun _ _ => trivial)
        (hown.acts_looking (c := .members (.named spec.name)) (fun _ => rfl) rfl fun m hm => ?_)
      rw [Memory.serve_members hm]
      exact hown.memberActions hp hexpected (.inr ⟨ho, rfl⟩)

/-! ## The whole run -/

theorem BindsOnce.ownProject (hw : w.BindsOnce) (places : List (Nat × String)) (u : Nat) :
    (bindings (ownProject places u w)).Nodup := by
  rw [World.ownProject, holding?]
  cases hm : w.memory? ((places[u]?).getD (0, "")).1 with
  | none => exact List.nodup_nil
  | some m =>
    rw [Option.bind_some]
    cases hh : m.projects.get? ((places[u]?).getD (0, "")).2 with
    | none => exact List.nodup_nil
    | some h => exact hw _ m hm _ h hh

variable {ms : List Memory} {settings : RunSettings} {cancel : Option Nat}
  {registries : List RegistrySpec}

/-- The units of the first phase bind no member. -/
theorem secure_projectJob_once (hserve : machine.serve = serve)
    (hsettle : machine.settle = settle directory) (hw : w.backends = ms.map .memory)
    {job : Job UnitResult}
    (hjob : (projectJobs (w.backends.map Backend.profile) projects dry)[u]? = some job)
    (hu : backendOf u = job.backend) :
    (blindOnce machine backendOf ms units).Secure u False (fun _ _ => True) job.work () := by
  rw [getElem?_projectJobs, profiles_of_setups hw rfl, List.getElem?_map, Option.map_map] at hjob
  obtain ⟨m, hm, rfl⟩ := Option.map_eq_some_iff.1 hjob
  exact secure_projectUnit_once hserve hsettle (hu ▸ hm : ms[backendOf u]? = some m)

/-- **The first phase**, step by step. -/
theorem bindsOnce_of_projectPhase (directory : Option CredentialDirectory) (settings : RunSettings)
    (cancel : Option Nat) (projects : List ProjectSpec) (hw : w.backends = ms.map .memory)
    (honce : w.BindsOnce) :
    (∀ t ∈ w.projectTurns directory settings cancel projects,
        t.world.InMemory ms ∧ t.world.BindsOnce)
      ∧ (w.projectPhase directory settings cancel projects).world.InMemory ms
      ∧ (w.projectPhase directory settings cancel projects).world.BindsOnce :=
  Division.phase_sound (d := blindOnce (w.machine directory) _ ms _) (Q := fun _ _ _ => True)
    rfl rfl ⟨⟨ms, hw, rfl⟩, honce⟩ fun _ _ hjob =>
      secure_projectJob_once rfl rfl hw hjob (Job.backendOf_eq hjob)

/-- The units of the second phase keep the names of their projects apart. -/
theorem secure_memberJob_once (hserve : machine.serve = serve)
    (hsettle : machine.settle = settle directory) (hw : w.backends = ms.map .memory)
    (he : ∀ registry, ((expectedOn registry projects).map ProjectSpec.name).Nodup)
    (hexpected : ∀ spec ∈ projects, (spec.members.map Member.name).Nodup)
    (ho : (bindings o).Nodup) {job : Job UnitResult}
    (hjob : (memberJobs (w.backends.map Backend.profile) projects dry)[u]? = some job)
    (hu : backendOf u = job.backend) :
    (ownersOnce machine backendOf ms
      (memberPlaces (w.backends.map Backend.profile) projects)).Secure u False (fun _ _ => True)
        job.work o := by
  rw [memberJobs_eq, List.getElem?_map] at hjob
  obtain ⟨⟨i, p, spec⟩, hspot, rfl⟩ := Option.map_eq_some_iff.1 hjob
  have hplace := getElem?_memberPlaces hspot
  rw [profiles_of_setups hw rfl] at hspot
  obtain ⟨m, hm, -, hspec⟩ := getElem?_memberSpots hspot
  obtain rfl : backendOf u = i := hu
  exact Owns.memberUnit ⟨hserve, ⟨directory, hsettle⟩, hplace, ⟨m, hm⟩, nodup_memberPlaces _ he⟩
    (hexpected spec (List.mem_of_mem_filter hspec)) ho

/-- **The second phase**, step by step: its units own different projects. -/
theorem bindsOnce_of_memberPhase (hw : w.backends = ms.map .memory)
    (he : ∀ registry, ((expectedOn registry projects).map ProjectSpec.name).Nodup)
    (hexpected : ∀ spec ∈ projects, (spec.members.map Member.name).Nodup)
    (hfirst : (w.projectPhase directory settings cancel projects).world.InMemory ms
      ∧ (w.projectPhase directory settings cancel projects).world.BindsOnce) :
    (∀ t ∈ w.memberTurns directory settings cancel projects,
        t.world.InMemory ms ∧ t.world.BindsOnce)
      ∧ (w.memberPhase directory settings cancel projects).world.InMemory ms
      ∧ (w.memberPhase directory settings cancel projects).world.BindsOnce := by
  have hunits : (memberPlaces (w.backends.map Backend.profile) projects).length
      = (memberJobs (w.backends.map Backend.profile) projects settings.dry).length := by
    rw [memberJobs_eq, memberPlaces, List.length_map, List.length_map]
  exact Division.phase_sound (d := ownersOnce (w.machine directory) _ ms _)
    (Q := fun _ _ _ => True) rfl hunits hfirst fun u _ hjob =>
      secure_memberJob_once rfl rfl hw he hexpected (hfirst.2.ownProject _ u) hjob
        (Job.backendOf_eq hjob)

/-- **No member is ever bound twice** — not at any step of a run, whatever it is told, whatever the
backends reject, whatever interrupts it and whether or not there is a place for credentials; and so
not at any step of the next run either. What may interrupt it is its deadline or a cancellation that
stays signalled (`Signals`). -/
theorem bindsOnce_of_run (hw : w.backends = ms.map .memory) (honce : w.BindsOnce)
    (hchecked : (Snapshot.mk registries projects).check = .ok ())
    (hexpected : ∀ spec ∈ projects, (spec.members.map Member.name).Nodup)
    (directory : Option CredentialDirectory) (settings : RunSettings) (cancel : Option Nat) :
    (∀ t ∈ w.turns directory settings cancel projects, t.world.BindsOnce)
      ∧ (w.reconcile directory settings cancel projects).2.BindsOnce := by
  have hfirst := bindsOnce_of_projectPhase directory settings cancel projects hw honce
  have hsecond :=
    bindsOnce_of_memberPhase hw (Snapshot.nodup_expectedOn hchecked) hexpected hfirst.2
  refine ⟨fun t ht => ?_, hsecond.2.2⟩
  rcases List.mem_append.1 ht with ht | ht
  · exact (hfirst.1 t ht).2
  · exact (hsecond.1 t ht).2

/-- A slow backend with a project whose two members are to get other roles, one of which it can
neither unbind nor bind. -/
def roleBackend : Memory :=
  let registry : Registry := ⟨"edge", "https://edge.example.com", ⟨"admin", "secret"⟩, .harbor,
    .leaf, ⟨true, none⟩, .empty⟩
  { (((Memory.ofRegistry registry).addProject "tools" []).addMember "tools"
      ⟨"ann", .user, "Guest"⟩).addMember "tools" ⟨"ci", .robot, "PullOnly"⟩ with
    failing := ["ci"]
    latency := 20 }

/-- The project with the other roles. -/
def roleProject : ProjectSpec :=
  ⟨"tools", .everywhere, [], [⟨"ci", .robot, "PushOnly"⟩, ⟨"ann", .user, "Maintainer"⟩], none⟩

theorem bindsOnce_of_run_roles :
    (∀ t ∈ (ofMemories [roleBackend]).turns none ⟨2, 1000, false⟩ (some 150) [roleProject],
        t.world.BindsOnce)
      ∧ ((ofMemories [roleBackend]).reconcile none ⟨2, 1000, false⟩ (some 150)
          [roleProject]).2.BindsOnce := by
  have hchecked : (Snapshot.mk [] [roleProject]).check = .ok () := by decide
  have honce : (ofMemories [roleBackend]).BindsOnce := bindsOnce_ofMemories (by decide)
  exact bindsOnce_of_run (show (ofMemories [roleBackend]).backends = [roleBackend].map .memory
    from rfl) honce hchecked (by decide) none _ _

end World

end RegistryFleet
