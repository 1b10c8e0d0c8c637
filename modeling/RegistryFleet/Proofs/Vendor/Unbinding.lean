import RegistryFleet.Proofs.Vendor.Adapter
import RegistryFleet.Proofs.Vendor.Deletion

/-!
# Proofs/Vendor/Unbinding — which entry an unbinding deletes

The members of a project are put together from two listings: the entries for users and groups, and
the robots. An unbinding asks for the listing of its kind again and deletes the first entry that
goes by the name of the member. The role is reported and not looked at, so the entry that is deleted
is the one that was reported only where no earlier one goes by the same name in another role.

* `Harbor.bindings` — what the two listings hold: where it is deleted and what it is reported as.
* `Connection.unassign_deletes` — the one deletion of an unbinding.
-/

namespace RegistryFleet

open Json (Typed)
open Web (Connection Exchanges Peer Reply Request Subject)

namespace Harbor

/-! ## What the listings hold -/

/-- **An entry of the listings** — where it is deleted, and the member that it is reported as. -/
structure Binding where
  path : String
  member : Member
  deriving DecidableEq, Repr

/-- Does the entry go by the name and the kind of a member? -/
def Binding.isOf (m : Member) (b : Binding) : Bool :=
  b.member.name == m.name && b.member.type == m.type

/-- An entry of the name and the kind of a member is the member's if it has its role. -/
theorem Binding.member_eq_iff {m : Member} : ∀ {b : Binding}, b.isOf m = true →
    (b.member = m ↔ b.member.role = m.role)
  | ⟨_, ⟨_, _, role⟩⟩, h => by
      obtain ⟨hname, htype⟩ := Bool.and_eq_true_iff.1 h
      obtain rfl := eq_of_beq hname
      obtain rfl := eq_of_beq htype
      refine ⟨fun h => congrArg Member.role h, fun (h : role = m.role) => ?_⟩
      subst h
      rfl

/-- Every member that is reported goes by the name of an entry. -/
theorem exists_binding {m : Member} {bs : List Binding}
    (h : m ∈ Member.sort (bs.map Binding.member)) : ∃ b, bs.find? (Binding.isOf m) = some b := by
  rw [Member.sort, List.mem_mergeSort, List.mem_map] at h
  obtain ⟨b, hb, rfl⟩ := h
  have hof : Binding.isOf b.member b = true := by simp [Binding.isOf]
  exact Option.isSome_iff_exists.1 (List.find?_isSome.2 ⟨b, hb, hof⟩)

/-- An entry for a user or a group. -/
def MemberItem.binding? (project : Project) (e : MemberItem) : Option Binding :=
  e.member?.map fun m => ⟨membersPath project.name ++ "/" ++ toString e.id, m⟩

/-- An entry for a robot. -/
def RobotItem.binding (project : Project) (r : RobotItem) : Binding :=
  ⟨robotsPath project.name ++ "/" ++ toString r.id, r.member project.name⟩

/-- **What is listed**, in the order of the listings. -/
def bindings (project : Project) (entries : List MemberItem) (robots : List RobotItem) :
    List Binding :=
  entries.filterMap (·.binding? project) ++ robots.map (·.binding project)

variable {project : Project} {entries : List MemberItem} {robots : List RobotItem} {m : Member}

/-- The listed entries are reported as the members. -/
theorem map_member_bindings : (bindings project entries robots).map Binding.member
    = entries.filterMap MemberItem.member? ++ robots.map fun r => r.member project.name := by
  have hentry : ∀ e : MemberItem, (e.binding? project).map Binding.member = e.member? := by
    intro e
    rw [MemberItem.binding?]
    rcases e.member? <;> rfl
  rw [bindings, List.map_append, List.map_filterMap, List.map_map]
  simp only [hentry]
  rfl

/-- An entry that is reported goes by the letter of its kind. -/
theorem of_member? {e : MemberItem} (h : e.member? = some m) :
    m.name = e.name ∧ m.type ≠ .robot ∧ e.type = accountLetter m.type := by
  unfold MemberItem.member? at h
  split at h
  · next htype =>
    obtain rfl := Option.some.inj h
    exact ⟨rfl, nofun, htype⟩
  · next htype =>
    obtain rfl := Option.some.inj h
    exact ⟨rfl, nofun, htype⟩
  · cases h

/-- An entry goes by the name and the kind of a member that has its name and its letter. -/
theorem any_binding? (e : MemberItem) (htype : m.type ≠ .robot) :
    (e.binding? project).any (Binding.isOf m)
      = (e.name == m.name && e.type == accountLetter m.type) := by
  unfold MemberItem.binding? MemberItem.member? Binding.isOf
  rcases hm : m.type with _ | _ | _
  case robot => exact absurd hm htype
  all_goals split <;> simp_all [accountLetter]

/-- **The first entry of a robot's name** is the first robot of the name. -/
theorem find?_bindings_robot (htype : m.type = .robot) :
    (bindings project entries robots).find? (Binding.isOf m)
      = (robots.find? fun r => robotMemberName r.name project.name == m.name).map
        (·.binding project) := by
  have hentries : (entries.filterMap (·.binding? project)).find? (Binding.isOf m) = none := by
    refine List.find?_eq_none.2 fun b hb hof => ?_
    obtain ⟨e, -, he⟩ := List.mem_filterMap.1 hb
    obtain ⟨m', hm', rfl⟩ := Option.map_eq_some_iff.1 he
    have hkind : m'.type = m.type := by simpa using (Bool.and_eq_true_iff.1 hof).2
    exact (of_member? hm').2.1 (hkind.trans htype)
  have hrobot : ∀ r : RobotItem, Binding.isOf m (r.binding project)
      = (robotMemberName r.name project.name == m.name) := by
    intro r
    simp [Binding.isOf, RobotItem.binding, RobotItem.member, htype]
  rw [bindings, List.find?_append, hentries, Option.none_or, List.find?_map]
  simp only [Function.comp_def, hrobot]

/-- **The first entry of the name of a user or a group** is the first one with the letter. -/
theorem find?_bindings_account (htype : m.type ≠ .robot) :
    (bindings project entries robots).find? (Binding.isOf m)
      = (entries.find? fun e => e.name == m.name && e.type == accountLetter m.type).bind
        (·.binding? project) := by
  have hrobots : (robots.map (·.binding project)).find? (Binding.isOf m) = none := by
    refine List.find?_eq_none.2 fun b hb hof => ?_
    obtain ⟨r, -, rfl⟩ := List.mem_map.1 hb
    have hkind : (r.binding project).member.type = m.type := by
      simpa using (Bool.and_eq_true_iff.1 hof).2
    exact htype hkind.symm
  rw [bindings, List.find?_append, hrobots, Option.or_none, List.find?_filterMap]
  simp only [any_binding? _ htype]

end Harbor

namespace Web.Connection

open Harbor

variable {σ : Type} {c : Connection} {project : Project} {ms : List Member} {m : Member}
  {log : List (Request × Reply)}

/-! ## Exchanges -/

/-- The members that are reported come from two listings, one after the other. -/
theorem leads_members (h : (Harbor.members c project).Leads log (.ok ms)) :
    ∃ front back entries robots, log = front ++ back
      ∧ (memberItems c project).Leads front (.ok entries)
      ∧ (robotItems c project).Leads back (.ok robots)
      ∧ ms = Member.sort ((bindings project entries robots).map Binding.member) := by
  obtain ⟨entries, front, back, rfl, hentries, h⟩ := h.bind_ok
  obtain ⟨robots, back, rest, rfl, hrobots, rfl, hms⟩ := h.bind_ok
  refine ⟨front, back, entries, robots, ?_, hentries, hrobots, ?_⟩
  · rw [List.append_nil]
  · rw [map_member_bindings]
    exact Except.ok.inj hms

/-- Something that is found in a listing again is deleted. -/
theorem leads_resume_delete {ι : Type} {subject : Subject} {path : String} {read : Typed ι}
    {front : List (Request × Reply)} {items : List ι} {f : List ι → Exchanges String}
    {target : String} {result : Except Error Unit} {about : Subject} (hfound : f items = pure target)
    (hlisting : (c.listing subject path read).Leads front (.ok items))
    (h : ((c.listing subject path read >>= f) >>= c.delete about).Leads log result)
    (hagree : Exchanges.Agree front log) :
    ∃ gets deletion reply, log = gets ++ [(deletion, reply)] ∧ (∀ e ∈ gets, e.1.method = .get)
      ∧ c.request? .delete target [] none = some deletion := by
  rw [bind_assoc] at h
  obtain ⟨back, rfl, hback⟩ := hlisting.resume h hagree
  rw [hfound, pure_bind] at hback
  obtain ⟨-, hgets, haddress⟩ := leads_pagesFrom hlisting
  obtain ⟨request, haddress⟩ := Option.isSome_iff_exists.1 haddress
  obtain ⟨answer, hsends, -⟩ := leads_delete hback
  obtain ⟨deletion, reply, hdeletion, rfl⟩ := hsends.of_address haddress
  exact ⟨front, deletion, reply, rfl, hgets, hdeletion⟩

/-- **The exchanges of an unbinding** that hears the listings that `entries` and `robots` were heard
from. -/
theorem leads_unassign {front back : List (Request × Reply)} {entries : List MemberItem}
    {robots : List RobotItem} {b : Binding} {result : Except Error Unit}
    (hentries : (memberItems c project).Leads front (.ok entries))
    (hrobots : (robotItems c project).Leads back (.ok robots))
    (hb : (bindings project entries robots).find? (Binding.isOf m) = some b)
    (h : (Harbor.unassign c project m).Leads log result)
    (hagree : Exchanges.Agree (front ++ back) log) :
    ∃ gets deletion reply, log = gets ++ [(deletion, reply)] ∧ (∀ e ∈ gets, e.1.method = .get)
      ∧ c.request? .delete b.path [] none = some deletion := by
  have hfront := hagree.mono (List.subset_append_left front back) (List.Subset.refl log)
  have hback := hagree.mono (List.subset_append_right front back) (List.Subset.refl log)
  unfold Harbor.unassign bindingPath at h
  by_cases htype : m.type = .robot
  · rw [find?_bindings_robot htype] at hb
    obtain ⟨r, hr, rfl⟩ := Option.map_eq_some_iff.1 hb
    simp only [htype] at h
    refine leads_resume_delete ?_ hrobots h hback
    simp only [hr]
    rfl
  · rw [find?_bindings_account htype] at hb
    obtain ⟨e, he, hbinding⟩ := Option.bind_eq_some_iff.1 hb
    obtain ⟨m', -, rfl⟩ := Option.map_eq_some_iff.1 hbinding
    rcases hm : m.type with _ | _ | _
    case robot => exact absurd hm htype
    all_goals
      rw [hm] at he
      simp only [hm] at h
      refine leads_resume_delete ?_ hentries h hfront
      simp only [he]

/-- **Which entry an unbinding deletes.** If the listings stay the same, a member that was reported
is unbound by one deletion, of the first entry of its name and kind; that is an entry that was
reported as the member just if it has the role of the member. -/
theorem unassign_deletes (hvendor : c.registry.vendor = .harbor) (replier : Exchanges.Replier σ)
    (s t : σ) (hms : (c.serve replier (.members project) s).1 = .ok ms) (hm : m ∈ ms)
    (hagree : Exchanges.Agree (c.exchanged replier s (.members project))
      (c.exchanged replier t (.unassign project m))) :
    ∃ front back entries robots, c.exchanged replier s (.members project) = front ++ back
      ∧ (memberItems c project).Leads front (.ok entries)
      ∧ (robotItems c project).Leads back (.ok robots)
      ∧ ms = Member.sort ((bindings project entries robots).map Binding.member)
      ∧ ∃ gets deletion reply b,
        c.exchanged replier t (.unassign project m) = gets ++ [(deletion, reply)]
        ∧ (∀ e ∈ gets, e.1.method = .get)
        ∧ c.request? .delete b.path [] none = some deletion
        ∧ (bindings project entries robots).find? (Binding.isOf m) = some b
        ∧ (b.member = m ↔ b.member.role = m.role) := by
  have hmembers := c.leads_exchanged replier s (.members project)
  have hunassign := c.leads_exchanged replier t (.unassign project m)
  rw [hms] at hmembers
  simp only [exchanges, hvendor] at hmembers hunassign
  obtain ⟨front, back, entries, robots, hlog, hentries, hrobots, rfl⟩ := leads_members hmembers
  rw [hlog] at hagree
  obtain ⟨b, hb⟩ := exists_binding hm
  obtain ⟨gets, deletion, reply, hdeletes, hgets, hdeletion⟩ :=
    leads_unassign hentries hrobots hb hunassign hagree
  exact ⟨front, back, entries, robots, hlog, hentries, hrobots, rfl, gets, deletion, reply, b,
    hdeletes, hgets, hdeletion, hb, Binding.member_eq_iff (List.find?_some hb)⟩

/-- The members that are reported, from the runs of the two listings. -/
theorem serve_members {replier : Exchanges.Replier σ} {s : σ} {entries : List MemberItem}
    {robots : List RobotItem} (hvendor : c.registry.vendor = .harbor)
    (hentries : ((memberItems c project).run replier s).1 = .ok entries)
    (hrobots : ((robotItems c project).run replier ((memberItems c project).run replier s).2).1
      = .ok robots) :
    (c.serve replier (.members project) s).1
      = .ok (Member.sort ((bindings project entries robots).map Binding.member)) := by
  simp only [serve, exchanges, hvendor, Harbor.members, map_member_bindings]
  rw [Exchanges.run_bind_ok hentries, Exchanges.run_bind_ok hrobots]
  rfl

/-! ### Robots of one name -/

/-- A robot that may pull. -/
def pulling : RobotItem := ⟨21, "robot$p+ci", []⟩

/-- A robot that may push; its name comes to the same. -/
def pushing : RobotItem := ⟨22, "robot$ci", [⟨"r", "push"⟩]⟩

/-- A peer that lists both robots. -/
def namesakes : Peer :=
  .scripted (.ofList
    [("GET https://hub.example.com/api/v2.0/projects/p/robots?page=1&page_size=100",
      [.answered 200 ("[\x7b\"id\":21,\"name\":\"robot$p+ci\"\x7d,"
        ++ "\x7b\"id\":22,\"name\":\"robot$ci\","
        ++ "\"access\":[\x7b\"resource\":\"r\",\"action\":\"push\"\x7d]\x7d]")])])
    (.answered 200 "")

/-- The peer after the members were listed. -/
def namesakesHeard : Peer := (guardedHub.serve Peer.reply (.members (.named "p")) namesakes).2

/-- What the peer lists. -/
theorem listed_namesakes :
    ((memberItems guardedHub (.named "p")).run Peer.reply namesakes).1 = .ok []
      ∧ ((robotItems guardedHub (.named "p")).run Peer.reply
        ((memberItems guardedHub (.named "p")).run Peer.reply namesakes).2).1
          = .ok [pulling, pushing] := by
  decide +kernel

theorem members_namesakes : (guardedHub.serve Peer.reply (.members (.named "p")) namesakes).1
    = .ok (Member.sort [pulling.member "p", pushing.member "p"]) :=
  serve_members rfl listed_namesakes.1 listed_namesakes.2

/-- Either robot is reported. -/
theorem mem_namesakes {m : Member} (h : m ∈ [pulling.member "p", pushing.member "p"]) :
    m ∈ Member.sort [pulling.member "p", pushing.member "p"] :=
  (List.mergeSort_perm _ _).mem_iff.2 h

theorem agree_namesakes :
    ∀ m ∈ [pulling.member "p", pushing.member "p"],
      Exchanges.Agree (guardedHub.exchanged Peer.reply namesakes (.members (.named "p")))
        (guardedHub.exchanged Peer.reply namesakesHeard (.unassign (.named "p") m)) := by
  have hlines : ∀ m ∈ [pulling.member "p", pushing.member "p"],
      ∀ e ∈ (guardedHub.exchanged Peer.reply namesakes (.members (.named "p"))).map
        fun e => (e.1.line, e.2),
      ∀ e' ∈ (guardedHub.exchanged Peer.reply namesakesHeard (.unassign (.named "p") m)).map
        fun e => (e.1.line, e.2), e.1 = e'.1 → e.2 = e'.2 := by
    decide +kernel
  intro m hm e he e' he' hrequest
  exact hlines m hm _ (List.mem_map_of_mem he) _ (List.mem_map_of_mem he')
    (congrArg Request.line hrequest)

theorem unassign_deletes_pulling : ∃ entries robots gets deletion reply b,
    guardedHub.exchanged Peer.reply namesakesHeard
        (.unassign (.named "p") (pulling.member "p")) = gets ++ [(deletion, reply)]
      ∧ (∀ e ∈ gets, e.1.method = .get)
      ∧ guardedHub.request? .delete b.path [] none = some deletion
      ∧ (bindings (.named "p") entries robots).find? (Binding.isOf (pulling.member "p")) = some b
      ∧ (b.member = pulling.member "p" ↔ b.member.role = (pulling.member "p").role) := by
  have hpulling : pulling.member "p" ∈ [pulling.member "p", pushing.member "p"] :=
    List.mem_cons_self
  obtain ⟨-, -, entries, robots, -, -, -, -, h⟩ := unassign_deletes rfl Peer.reply namesakes
    namesakesHeard members_namesakes (mem_namesakes hpulling) (agree_namesakes _ hpulling)
  exact ⟨entries, robots, h⟩

/-- **The other robot is deleted** — the one that may push is reported and unbound, and the deletion
is for the first robot that goes by the name, which may pull. -/
theorem unassign_strays :
    (guardedHub.serve Peer.reply (.members (.named "p")) namesakes).1
        = .ok (Member.sort [pulling.member "p", pushing.member "p"])
      ∧ pushing.member "p" ∈ Member.sort [pulling.member "p", pushing.member "p"]
      ∧ Exchanges.Agree (guardedHub.exchanged Peer.reply namesakes (.members (.named "p")))
        (guardedHub.exchanged Peer.reply namesakesHeard
          (.unassign (.named "p") (pushing.member "p")))
      ∧ ((guardedHub.exchanged Peer.reply namesakesHeard
          (.unassign (.named "p") (pushing.member "p"))).map fun e => e.1.line)
        = ["GET https://hub.example.com/api/v2.0/projects/p/robots?page=1&page_size=100",
          "DELETE https://hub.example.com/api/v2.0/projects/p/robots/21"]
      ∧ pulling.id = 21 ∧ pulling.member "p" ≠ pushing.member "p" := by
  have hpushing : pushing.member "p" ∈ [pulling.member "p", pushing.member "p"] := by simp
  exact ⟨members_namesakes, mem_namesakes hpushing, agree_namesakes _ hpushing, by decide +kernel⟩

end Web.Connection

end RegistryFleet
