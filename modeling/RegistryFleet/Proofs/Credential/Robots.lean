import RegistryFleet.Proofs.Credential.Directory
import RegistryFleet.Proofs.Reconcile.Convergence

/-!
# Proofs/Credential/Robots — the robots of one project, and the credentials that are stored for them

What the unit of a project sees of a directory of credentials is its **shelf**: the names of the
members that a credential is stored for. Changes of members and their effects keep the two together.

* `shelves` — the shelves of the projects of a run.
* `settles_memberChange` — the effect of a change changes one name on the shelf of its project.
* `RobotsStored` — the invariant of the changes of a project: beside the robots bound there are on
  its shelf the names that no robot was bound under before.
-/

namespace RegistryFleet

/-! ## The robots among the members -/

/-- **A robot of that name is among the members.** -/
def BindsRobot (members : List Member) (name : String) : Prop :=
  ∃ b ∈ members, b.type = .robot ∧ b.name = name

theorem not_bindsRobot_nil (name : String) : ¬ BindsRobot [] name := fun ⟨_, hb, _⟩ =>
  List.not_mem_nil hb

theorem bindsRobot_add (members : List Member) (b : Member) (name : String) :
    BindsRobot ((Change.add b).carryOut members) name
      ↔ BindsRobot members name ∨ b.type = .robot ∧ b.name = name := by
  simp only [BindsRobot, Change.carryOut, List.mem_append, List.mem_singleton, or_and_right,
    exists_or, exists_eq_left]

/-- Names of members that are told apart by name. -/
theorem bindsRobot_remove {members : List Member} {b : Member} (hb : b ∈ members)
    (hdistinct : (members.map Member.name).Nodup) (name : String) :
    BindsRobot ((Change.remove b).carryOut members) name
      ↔ BindsRobot members name ∧ ¬ (b.type = .robot ∧ b.name = name) := by
  have hnodup : members.Nodup := hdistinct.of_map _
  have hinj := List.inj_on_of_nodup_map hdistinct
  simp only [BindsRobot, Change.carryOut, hnodup.mem_erase_iff]
  constructor
  · rintro ⟨a, ⟨hne, ha⟩, hrobot, rfl⟩
    exact ⟨⟨a, ha, hrobot, rfl⟩, fun h => hne (hinj ha hb h.2.symm)⟩
  · rintro ⟨⟨a, ha, hrobot, rfl⟩, hother⟩
    exact ⟨a, ⟨fun hab => hother ⟨hab ▸ hrobot, hab ▸ rfl⟩, ha⟩, hrobot, rfl⟩

/-! ## Shelves -/

/-- The key of a member of the project of a backend, by the names of the registries. -/
def keyAt (names : List String) (place : Nat × String) (member : String) : CredentialKey :=
  ⟨(names[place.1]?).getD "", place.2, member⟩

variable {d : CredentialDirectory} {here : List String} {names : List String}
  {places : List (Nat × String)} {place : Nat × String} {base files files' : Files}

/-- A key belongs to one place. -/
theorem keyAt_inj (hnodup : names.Nodup) {q : Nat × String} (hplace : place.1 < names.length)
    (hq : q.1 < names.length) {a b : String} (h : keyAt names place a = keyAt names q b) :
    place = q ∧ a = b := by
  simp only [keyAt, List.getElem?_eq_getElem hplace, List.getElem?_eq_getElem hq, Option.getD_some,
    CredentialKey.mk.injEq] at h
  obtain ⟨hname, hproject, hmember⟩ := h
  exact ⟨Prod.ext ((hnodup.getElem_inj_iff).1 hname) hproject, hmember⟩

/-- **The shelves of the projects of a run**, which began with these files: keys of no project of
the run stay stored or not. -/
def shelves (d : CredentialDirectory) (here names : List String) (places : List (Nat × String))
    (base : Files) : World.Shelves (String → Prop) where
  tidy files := d.Ready here files ∧ ∀ key : CredentialKey, key.Proper →
    (∀ place ∈ places, ∀ member, key ≠ keyAt names place member) →
      (d.Stores files key ↔ d.Stores base key)
  shelf place files member :=
    (keyAt names place member).Proper ∧ d.Stores files (keyAt names place member)

/-- **A change of the credential of one member** changes the shelf of its project alone. -/
theorem shelves_of_change (hnodup : names.Nodup) (hplaces : ∀ q ∈ places, q.1 < names.length)
    (hplace : place ∈ places) {member : String} {stored : Prop}
    (hkey : (keyAt names place member).Proper)
    (hchange : d.Change here (keyAt names place member) stored files files')
    (htidy : (shelves d here names places base).tidy files) :
    (shelves d here names places base).tidy files'
      ∧ (∀ q ∈ places, q ≠ place → (shelves d here names places base).shelf q files'
          = (shelves d here names places base).shelf q files)
      ∧ ((shelves d here names places base).shelf place files' member ↔ stored)
      ∧ ∀ other, other ≠ member → ((shelves d here names places base).shelf place files' other
          ↔ (shelves d here names places base).shelf place files other) := by
  have hother : ∀ q ∈ places, ∀ other, (q = place → other ≠ member) →
      ((shelves d here names places base).shelf q files' other
        ↔ (shelves d here names places base).shelf q files other) := by
    intro q hq other hne
    refine and_congr_right fun hproper => hchange.others _ hproper fun he => ?_
    obtain ⟨hsame, hmember⟩ := keyAt_inj hnodup (hplaces q hq) (hplaces place hplace) he
    exact hne hsame hmember
  refine ⟨⟨hchange.ready, fun key hproper hnone => ?_⟩, fun q hq hne => ?_, ?_, fun other hne => ?_⟩
  · rw [hchange.others key hproper (hnone place hplace member)]
    exact htidy.2 key hproper hnone
  · funext other
    exact propext (hother q hq other fun h => absurd h hne)
  · exact (and_iff_right hkey).trans hchange.self
  · exact hother place hplace other fun _ => hne

/-! ## The effect of a change -/

/-- No effect leaves every shelf as it is. -/
theorem settles_none {R : Except Error Unit → (String → Prop) → (String → Prop) → Prop}
    (hR : ∀ f, R (.ok ()) f f) :
    (shelves d here names places base).Settles (some d) places place .none R :=
  fun _ htidy => ⟨htidy, fun _ _ _ => rfl, hR _⟩

/-- **Storing a credential** puts its member on the shelf. -/
theorem settles_persist (hnodup : names.Nodup) (hplaces : ∀ q ∈ places, q.1 < names.length)
    (hplace : place ∈ places) {member : String} (hkey : d.Takes (keyAt names place member))
    (endpoint : String) (credentials : Credentials) :
    (shelves d here names places base).Settles (some d) places place
      (.persist (keyAt names place member) endpoint credentials)
      (fun out f f' => out = .ok () ∧ ∀ n, f' n ↔ f n ∨ member = n) := by
  intro files htidy
  obtain ⟨files', hpersist, hchange⟩ :=
    CredentialDirectory.persist_ok htidy.1 hkey endpoint credentials
  obtain ⟨htidy', hothers, hself, hrest⟩ :=
    shelves_of_change hnodup hplaces hplace hkey.proper hchange htidy
  have hsettle : (Effect.persist (keyAt names place member) endpoint credentials).settle (some d)
      files = .ok files' := by
    rw [Effect.settle, Option.elim_some, hpersist]
  rw [Effect.applied_of_ok hsettle]
  refine ⟨htidy', hothers, rfl, fun n => ?_⟩
  rcases eq_or_ne n member with rfl | hne
  · exact ⟨fun _ => .inr rfl, fun _ => hself.2 trivial⟩
  · rw [hrest n hne]
    exact (or_iff_left hne.symm).symm

/-- **Removing a credential** takes its member off the shelf, if it is there. -/
theorem settles_remove (hnodup : names.Nodup) (hplaces : ∀ q ∈ places, q.1 < names.length)
    (hplace : place ∈ places) {member : String} (hkey : d.Takes (keyAt names place member)) :
    (shelves d here names places base).Settles (some d) places place
      (.remove (keyAt names place member))
      (fun out f f' => f member → out = .ok () ∧ ∀ n, f' n ↔ f n ∧ member ≠ n) := by
  intro files htidy
  by_cases hstored : d.Stores files (keyAt names place member)
  · obtain ⟨files', hremove, hchange⟩ := CredentialDirectory.remove_ok htidy.1 hkey hstored
    obtain ⟨htidy', hothers, hself, hrest⟩ :=
      shelves_of_change hnodup hplaces hplace hkey.proper hchange htidy
    have hsettle : (Effect.remove (keyAt names place member)).settle (some d) files
        = .ok files' := by
      rw [Effect.settle, Option.elim_some, hremove]
    rw [Effect.applied_of_ok hsettle]
    refine ⟨htidy', hothers, fun _ => ⟨rfl, fun n => ?_⟩⟩
    rcases eq_or_ne n member with rfl | hne
    · exact ⟨fun h => (hself.1 h).elim, fun h => absurd rfl h.2⟩
    · rw [hrest n hne]
      exact (and_iff_left hne.symm).symm
  · obtain ⟨err, hremove⟩ := CredentialDirectory.remove_error htidy.1 hkey hstored
    have hsettle : (Effect.remove (keyAt names place member)).settle (some d) files
        = .error err := by
      rw [Effect.settle, Option.elim_some, hremove]
    rw [Effect.applied_of_error hsettle]
    exact ⟨htidy, fun _ _ _ => rfl, fun hshelf => absurd hshelf.2 hstored⟩

/-- **What a change of a member makes of the shelf** of its project. -/
def ShelfChange : Change Member → Except Error Unit → (String → Prop) → (String → Prop) → Prop
  | .add b, out, f, f' => out = .ok () ∧ ∀ n, f' n ↔ f n ∨ b.type = .robot ∧ b.name = n
  | .remove b, out, f, f' => (b.type = .robot → f b.name) →
      out = .ok () ∧ ∀ n, f' n ↔ f n ∧ ¬ (b.type = .robot ∧ b.name = n)

/-- **The effect of a change of a member** changes the shelf of the project as the change itself
changes the robots. -/
theorem settles_memberChange (hnodup : names.Nodup) (hplaces : ∀ q ∈ places, q.1 < names.length)
    (hplace : place ∈ places) {p : Profile} (hname : names[place.1]? = some p.registry.name)
    {c : Change Member}
    (htakes : c.element.type = .robot → d.Takes (keyAt names place c.element.name)) {e : Effect}
    (hasks : c.Asks p (.named place.2) e) :
    (shelves d here names places base).Settles (some d) places place e (ShelfChange c) := by
  have hkeyAt : ∀ member, keyAt names place member = ⟨p.registry.name, place.2, member⟩ := by
    simp [keyAt, hname]
  cases hasks with
  | add b generated hgenerated =>
    cases generated with
    | none =>
      have hrobot : b.type ≠ .robot := fun h => by simpa using hgenerated.2 h
      exact settles_none fun f => ⟨rfl, fun n => by simp [hrobot]⟩
    | some credentials =>
      have hrobot : b.type = .robot := hgenerated.1 rfl
      rw [Action.bindingEffect, Project.named, ← hkeyAt]
      refine (settles_persist hnodup hplaces hplace (htakes hrobot) _ _).mono ?_
      rintro out f f' ⟨hout, hshelf⟩
      exact ⟨hout, fun n => (hshelf n).trans (by simp [hrobot, Change.element])⟩
  | remove b =>
    by_cases hrobot : b.type = .robot
    · rw [Action.unbindingEffect, if_pos hrobot, Project.named, ← hkeyAt]
      refine (settles_remove hnodup hplaces hplace (htakes hrobot)).mono ?_
      rintro out f f' hchange hbound
      obtain ⟨hout, hshelf⟩ := hchange (hbound hrobot)
      exact ⟨hout, fun n => (hshelf n).trans (by simp [hrobot, Change.element])⟩
    · rw [Action.unbindingEffect, if_neg hrobot]
      exact settles_none fun f _ => ⟨rfl, fun n => by simp [hrobot]⟩

/-! ## The changes of a project -/

/-- **Shelf and robots while changes are still to come** — removals come first, while the members
are still among those before. -/
structure RobotsStored (m : Memory) (spec : ProjectSpec) (before : List Member)
    (shelf : String → Prop) (members : List Member) (f : String → Prop)
    (rest : List (Change Member)) : Prop where
  way : Change.OnTheWay (World.kept m) before spec.members members rest
  order : ∃ rs as : List Member, rest = rs.map Change.remove ++ as.map Change.add
    ∧ (rs ≠ [] → members.Sublist before)
  stored : ∀ n, f n ↔ BindsRobot members n ∨ shelf n ∧ ¬ BindsRobot before n

namespace RobotsStored

variable {m : Memory} {spec : ProjectSpec} {before members : List Member}
  {shelf f f' : String → Prop} {c : Change Member} {rest : List (Change Member)}
  {out : Except Error Unit}

theorem start (m : Memory) (spec : ProjectSpec) (hshelf : ∀ n, BindsRobot before n → shelf n) :
    RobotsStored m spec before shelf before shelf (diff before spec.members) where
  way := .start _ _ _
  order := ⟨_, _, rfl, fun _ => List.Sublist.refl _⟩
  stored n := by
    by_cases hn : BindsRobot before n
    · simp [hn, hshelf n hn]
    · simp [hn]

/-- Removals stay in front. -/
theorem order_tail (h : RobotsStored m spec before shelf members f (c :: rest))
    {members' : List Member} (hmembers : members'.Sublist members ∨ ∃ b, c = .add b) :
    ∃ rs as : List Member, rest = rs.map Change.remove ++ as.map Change.add
      ∧ (rs ≠ [] → members'.Sublist before) := by
  obtain ⟨rs, as, hrest, hbefore⟩ := h.order
  cases rs with
  | cons r rs =>
    obtain ⟨rfl, rfl⟩ := List.cons.inj hrest
    refine ⟨rs, as, rfl, fun _ => ?_⟩
    rcases hmembers with hsub | ⟨b, hb⟩
    · exact hsub.trans (hbefore (List.cons_ne_nil _ _))
    · cases hb
  | nil =>
    obtain ⟨b, as, rfl, rfl, rfl⟩ := List.map_eq_cons_iff.1 hrest.symm
    exact ⟨[], as, rfl, fun h => absurd rfl h⟩

/-- A change that is left out. -/
theorem pass (h : RobotsStored m spec before shelf members f (c :: rest))
    (hc : World.kept m c.element = false) : RobotsStored m spec before shelf members f rest where
  way := h.way.pass hc
  order := h.order_tail (.inl (List.Sublist.refl _))
  stored := h.stored

/-- A change that is carried out, on the members and on the shelf. -/
theorem carry (h : RobotsStored m spec before shelf members f (c :: rest))
    (hc : World.kept m c.element = true) (hdistinct : (before.map Member.name).Nodup)
    (hchange : ShelfChange c out f f') :
    RobotsStored m spec before shelf (c.carryOut members) f' rest ∧ out = .ok () := by
  have hway := h.way.carry hc
  cases c with
  | add b =>
    obtain ⟨hout, hshelf⟩ := hchange
    refine ⟨⟨hway, h.order_tail (.inr ⟨b, rfl⟩), fun n => ?_⟩, hout⟩
    rw [hshelf n, h.stored n, bindsRobot_add]
    tauto
  | remove b =>
    have hb : b ∈ members := h.way.mem_of_remove hc
    have hsub : members.Sublist before := by
      obtain ⟨rs, as, hrest, hbefore⟩ := h.order
      refine hbefore fun hnil => ?_
      subst hnil
      obtain ⟨_, _, -, hadd, -⟩ := List.map_eq_cons_iff.1 hrest.symm
      cases hadd
    have hshelf : b.type = .robot → f b.name := fun hrobot =>
      (h.stored b.name).2 (.inl ⟨b, hb, hrobot, rfl⟩)
    obtain ⟨hout, hshelf'⟩ := hchange hshelf
    refine ⟨⟨hway, h.order_tail (.inl List.erase_sublist), fun n => ?_⟩, hout⟩
    rw [hshelf' n, h.stored n, bindsRobot_remove hb (hdistinct.sublist (hsub.map _))]
    have hbound : b.type = .robot ∧ b.name = n → BindsRobot before n := fun ⟨hrobot, hn⟩ =>
      ⟨b, hsub.subset hb, hrobot, hn⟩
    tauto

end RobotsStored

/-- **The aim of a unit that stores credentials.** -/
theorem memberAim_robots (m : Memory) (spec : ProjectSpec) {before : List Member}
    (shelf : String → Prop) (hdistinct : (before.map Member.name).Nodup) :
    MemberAim True m.failing (fun _ => False) (fun n => m.failing.contains n = true) ShelfChange
      (RobotsStored m spec before shelf) where
  interrupted hnot := absurd trivial hnot
  passed _ _ _ _ h hc := h.pass (by rw [World.kept, hc]; rfl)
  failing _ h := .inl h
  absent _ _ _ _ h hkept hb := absurd (h.way.mem_of_remove (by rw [World.kept, hkept]; rfl)) hb
  carriedOut _ _ _ _ _ _ h hkept hchange := .inl <| by
    obtain ⟨hcarried, rfl⟩ := h.carry (by rw [World.kept, hkept]; rfl) hdistinct hchange
    exact ⟨hcarried, fun _ he => (by cases he)⟩

/-- Members that a unit leaves have names of their own. -/
theorem RobotsStored.distinct {m : Memory} {spec : ProjectSpec} {before members : List Member}
    {shelf f : String → Prop} (h : RobotsStored m spec before shelf members f [])
    (hbefore : (before.map Member.name).Nodup) (hspec : (spec.members.map Member.name).Nodup) :
    (members.map Member.name).Nodup := by
  have hnodup : members.Nodup := by
    have := Change.nodup_carryAll_diff (hbefore.of_map _) (hspec.of_map _) (World.kept m)
    rwa [← h.way.goal] at this
  refine hnodup.map_on fun a ha b hb hab => ?_
  have hkept : World.kept m a = World.kept m b := by rw [World.kept, World.kept, hab]
  rw [h.way.mem_iff] at ha hb
  rw [hkept] at ha
  split at ha
  · next hk =>
    rw [if_pos hk] at hb
    exact List.inj_on_of_nodup_map hspec ha hb hab
  · next hk =>
    rw [if_neg hk] at hb
    exact List.inj_on_of_nodup_map hbefore ha hb hab

/-- **What a unit leaves** — on the shelf there are, beside the robots bound, the names that no
robot was bound under before; the project is as it was, or its changes have been gone through. -/
theorem MemberOutcome.robots {m : Memory} {spec : ProjectSpec} {p : Profile} {o o' : Option Holding}
    {shelf shelf' : String → Prop} {r : UnitResult}
    (h : MemberOutcome True p (fun _ => False) (fun h => RobotsStored m spec h.members shelf)
      o shelf r o' shelf')
    (hshelf : ∀ h n, o = some h → BindsRobot h.members n → shelf n) :
    (∀ n, shelf' n ↔ (∃ h', o' = some h' ∧ BindsRobot h'.members n)
      ∨ shelf n ∧ ¬ ∃ h, o = some h ∧ BindsRobot h.members n)
    ∧ ∀ h', o' = some h' → o = some h' ∨ ∃ h, o = some h ∧ h'.repositories = h.repositories
      ∧ RobotsStored m spec h.members shelf h'.members shelf' [] := by
  cases h with
  | interrupted hnot => exact absurd trivial hnot
  | bad _ hbad => exact hbad.elim fun _ hr => hr.2.elim
  | skipped =>
    refine ⟨fun n => ?_, fun h' hh' => .inl hh'⟩
    by_cases hn : ∃ h, o = some h ∧ BindsRobot h.members n
    · obtain ⟨h, hh, hbinds⟩ := id hn
      exact iff_of_true (hshelf h n hh hbinds) (.inl hn)
    · simp only [hn, false_or, not_false_iff, and_true]
  | held h h' ho hrepositories _ hheld =>
    subst ho
    refine ⟨fun n => (hheld.stored n).trans (by simp), fun g hg => ?_⟩
    obtain rfl := Option.some.inj hg
    exact .inr ⟨h, rfl, hrepositories, hheld⟩

end RegistryFleet
