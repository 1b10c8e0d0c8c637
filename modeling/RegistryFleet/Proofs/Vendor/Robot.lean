import RegistryFleet.Proofs.Reconcile.Difference
import RegistryFleet.Proofs.Text.Mark
import RegistryFleet.Proofs.Vendor.Membership
import RegistryFleet.Proofs.Vendor.Pagination
import RegistryFleet.Proofs.Vendor.Unbinding

/-!
# Proofs/Vendor/Robot — a robot is reported as the member that it was created for

The role of a robot goes out as the list of what it may do, and comes back as that list; its name
goes out bare, and comes back with marks that tell of the server and of the project. Both are read
again by functions of their own, and a reading that missed would have the robot deleted and created
anew, with another secret, by every run.

* `Harbor.Called` — the names that a server gives to the robot of a member.
* `Harbor.robotRole_accessOf`, `Harbor.robotMemberName_of_called` — role and name are read again.
* `Harbor.Listing.Told` — what the pages of a listing tell.
* `Connection.robot_reported` — a robot that was created is reported as its member.
-/

namespace RegistryFleet

open Json (Typed)
open Web (Connection Exchanges Peer Reply Request)

namespace Harbor

/-! ## Names and roles -/

/-- **The names that a server gives** to the robot of a member: with its own mark, and with or
without that of the project. A name that seems to have the mark of the project already is always
given it. -/
inductive Called (project name : String) : String → Prop
  | ofProject : Called project name (robotMark ++ (project ++ "+" ++ name))
  | bare (h : ∀ rest, name ≠ project ++ "+" ++ rest) : Called project name (robotMark ++ name)

/-- **The name of a robot is read again.** -/
theorem robotMemberName_of_called {project name given : String} (h : Called project name given) :
    robotMemberName given project = name := by
  cases h with
  | ofProject =>
    rw [robotMemberName, Text.stripMark?_append, Option.getD_some, String.append_assoc,
      Text.stripMark?_append, Option.bind_some, Text.stripMark?_append, Option.getD_some]
  | bare h =>
    rw [robotMemberName, Text.stripMark?_append, Option.getD_some]
    rcases hbehind : (Text.stripMark? project name).bind fun rest => Text.stripMark? "+" rest
      with _ | rest
    · rfl
    · obtain ⟨behind, hproject, hplus⟩ := Option.bind_eq_some_iff.1 hbehind
      obtain rfl := Text.stripMark?_eq_some_iff.1 hplus
      refine absurd (Text.stripMark?_eq_some_iff.1 hproject) ?_
      rw [← String.append_assoc]
      exact h rest

/-- **The role of a robot is read again** from what it may do. -/
theorem robotRole_accessOf {role : String} {actions : List String}
    (h : robotActions role = .ok actions) (project : Project) :
    robotRole (accessOf project actions) = role := by
  unfold robotActions at h
  split at h
  case h_4 => cases h
  all_goals
    obtain rfl := Except.ok.inj h
    simp [robotRole, accessOf]

/-! ## What a creation asks for -/

theorem readAccess_written (a : Access) :
    readAccess (Data.record [("action", .text a.action), ("resource", .text a.resource)]).node
      = .ok a := rfl

theorem items_readAccess_written : ∀ access : List Access,
    Typed.items readAccess (Data.nodes (access.map fun a =>
      .record [("action", .text a.action), ("resource", .text a.resource)])) = .ok access
  | [] => rfl
  | a :: access => by
      rw [List.map_cons, Data.nodes, Typed.items, readAccess_written,
        items_readAccess_written access]
      rfl

end Harbor

/-- **What a request asks to be allowed**, in the words of a listing. -/
def Web.Request.access? (r : Request) : Option (List Harbor.Access) := do
  let access ← (← r.body).field? "access"
  (Typed.list Harbor.readAccess access.node).toOption

namespace Web.Connection

open Harbor

variable {σ : Type} {c : Connection} {replier : Exchanges.Replier σ} {s : σ} {project : Project}
  {m : Member}

/-- The request for a robot asks for what the robot may do. -/
theorem access?_robotBody {method : Method} {path : String} {parameters : List (String × String)}
    {access : List Access} {request : Request}
    (h : c.request? method path parameters (some (robotBody m access)) = some request) :
    request.access? = some access := by
  have hread : Typed.list readAccess (Data.list (access.map fun a => .record
      [("action", .text a.action), ("resource", .text a.resource)])).node = .ok access :=
    items_readAccess_written access
  rw [Request.access?, (of_request? h).2]
  change (Typed.list readAccess _).toOption = some access
  rw [hread]
  rfl

/-- **A robot is created by one exchange**, whatever comes of it. -/
theorem leads_createRobot (hc : c.Open) {actions : List String}
    (hrole : robotActions m.role = .ok actions) {log : List (Request × Reply)}
    {result : Except Error Credentials} (h : (createRobot c project m).Leads log result) :
    ∃ request reply, log = [(request, reply)]
      ∧ c.request? .post (robotsPath project.name) []
          (some (robotBody m (accessOf project actions))) = some request := by
  obtain ⟨request, hrequest⟩ := Option.isSome_iff_exists.1 (isSome_request?_iff.2 hc.address :
    (c.request? .post (robotsPath project.name) []
      (some (robotBody m (accessOf project actions)))).isSome = true)
  rw [createRobot, hrole] at h
  change (c.postDocument (aboutProject project.name) (robotsPath project.name)
    (robotBody m (accessOf project actions)) readNewRobot ⟨"", ""⟩ >>= _).Leads log result at h
  rcases h.bind with ⟨e, hpost, -⟩ | ⟨created, front, back, rfl, hpost, hback⟩
  · obtain ⟨answer, hsends, -⟩ := leads_send_bind hpost
    obtain ⟨sent, reply, hsent, rfl⟩ := hsends.of_address hrequest
    exact ⟨sent, reply, rfl, hsent⟩
  · obtain ⟨answer, hsends, -⟩ := leads_send_bind hpost
    obtain ⟨sent, reply, hsent, rfl⟩ := hsends.of_address hrequest
    have hnone : back = [] := by
      split at hback
      · exact hback.1
      · exact hback.1
    subst hnone
    exact ⟨sent, reply, rfl, hsent⟩

/-- **What the creation of a robot asks for** can be told from its one request. -/
theorem exchanged_assign_robot (hvendor : c.registry.vendor = .harbor) (hc : c.Open)
    (hrobot : m.type = .robot) {actions : List String} (hrole : robotActions m.role = .ok actions)
    (replier : Exchanges.Replier σ) (s : σ) (project : Project) :
    ∃ request reply, c.exchanged replier s (.assign project m) = [(request, reply)]
      ∧ request.method = .post ∧ request.access? = some (accessOf project actions) := by
  have hleads := c.leads_exchanged replier s (.assign project m)
  simp only [exchanges, hvendor, assign, hrobot] at hleads
  obtain ⟨request, reply, hlog, hrequest⟩ : ∃ request reply,
      c.exchanged replier s (.assign project m) = [(request, reply)]
        ∧ c.request? .post (robotsPath project.name) []
          (some (robotBody m (accessOf project actions))) = some request := by
    rcases hleads.bind with ⟨e, hcreated, -⟩ | ⟨credentials, front, back, hlog, hcreated, hback⟩
    · exact leads_createRobot hc hrole hcreated
    · rw [hlog, hback.1, List.append_nil]
      exact leads_createRobot hc hrole hcreated
  exact ⟨request, reply, hlog, (of_request? hrequest).1, access?_robotBody hrequest⟩

end Web.Connection

/-! ## What listings tell -/

namespace Harbor.Listing

open Web.Connection (Full Succeeds itemsOf)

variable {σ : Type} {l : Listing} {c : Connection} {replier : Exchanges.Replier σ} {s : σ}

/-- **The replies tell these items**: full pages, asked for in turn, and then the last one. -/
def Told (l : Listing) (c : Connection) (replier : Exchanges.Replier σ) (s : σ)
    (items : List l.Item) : Prop :=
  ∃ n < c.pageLimit, (∀ m < n, c.Full l.read (l.reply c replier s m))
    ∧ Succeeds (l.reply c replier s n)
    ∧ (itemsOf l.read (l.reply c replier s n)).length < c.pageSize
    ∧ items = (List.range (n + 1)).flatMap fun m => itemsOf l.read (l.reply c replier s m)

/-- A page that is not full tells its items. -/
theorem Told.of_reply {reply : Reply} {items : List l.Item} (hlimit : 0 < c.pageLimit)
    (hreply : l.reply c replier s 0 = reply) (hsucceeds : Succeeds reply)
    (hitems : itemsOf l.read reply = items) (hlength : items.length < c.pageSize) :
    l.Told c replier s items := by
  subst hreply hitems
  exact ⟨0, hlimit, fun m hm => absurd hm (Nat.not_lt_zero m), hsucceeds, hlength, by simp⟩

/-- **A listing returns what it is told.** -/
theorem Told.result {items : List l.Item} (h : l.Told c replier s items) :
    l.result c replier s = .ok (items.map l.entry) := by
  obtain ⟨n, hlimit, hpages, hsucceeds, hlast, rfl⟩ := h
  have hends := ends hlimit hpages fun hfull => Nat.not_le_of_lt hlast hfull.filled
  rw [Web.Connection.withLimit_pageLimit] at hends
  exact hends.2.1 hsucceeds

end Harbor.Listing

namespace Web.Connection

open Harbor

variable {σ : Type} {c : Connection} {replier : Exchanges.Replier σ} {s : σ} {project : Project}
  {m : Member} {entries : List MemberItem} {robots : List RobotItem} {r : RobotItem}

/-- **What a server tells of the members of a project**, when it is asked for the entries for users
and groups and then for the robots. -/
structure Roster (c : Connection) (replier : Exchanges.Replier σ) (project : Project) (s : σ)
    (entries : List MemberItem) (robots : List RobotItem) : Prop where
  entries : (Listing.members project).Told c replier s entries
  robots : (Listing.robots project).Told c replier ((memberItems c project).run replier s).2 robots

/-- The members are those that are told. -/
theorem Roster.serve_members (h : c.Roster replier project s entries robots)
    (hvendor : c.registry.vendor = .harbor) :
    (c.serve replier (.members project) s).1
      = .ok (Member.sort ((bindings project entries robots).map Binding.member)) := by
  have hentries := h.entries.result
  have hrobots := h.robots.result
  rw [show (Listing.members project).entry = id from rfl, List.map_id] at hentries
  rw [show (Listing.robots project).entry = id from rfl, List.map_id] at hrobots
  exact Web.Connection.serve_members hvendor hentries hrobots

/-- **The members, with one robot in front.** -/
theorem perm_members (hr : r ∈ robots) :
    (Member.sort ((bindings project entries robots).map Binding.member)).Perm
      (r.member project.name
        :: (bindings project entries (robots.erase r)).map Binding.member) := by
  refine (List.mergeSort_perm _ _).trans ?_
  rw [map_member_bindings, map_member_bindings]
  have hrobots := (List.perm_cons_erase hr).map fun r => r.member project.name
  exact (hrobots.append_left _).trans List.perm_middle

/-- **A robot is reported as the member that it was created for.** The creation of a robot in a role
that is known is one request, which asks for a list of what the robot may do. Whenever a server
tells of a robot with just this list and with a name that it gives to a robot of the member's name,
the members are reported, and they are this very member and those of all other entries, so that
nothing is left to change towards them; and whatever else is expected beside the member, no change
is about it. -/
theorem robot_reported (hvendor : c.registry.vendor = .harbor) (hc : c.Open)
    (hrobot : m.type = .robot) {actions : List String} (hrole : robotActions m.role = .ok actions)
    (project : Project) (replier : Exchanges.Replier σ) (s : σ) :
    ∃ request reply access, c.exchanged replier s (.assign project m) = [(request, reply)]
      ∧ request.method = .post ∧ request.access? = some access
      ∧ ∀ (t : σ) (entries : List MemberItem) (robots : List RobotItem) (r : RobotItem),
          c.Roster replier project t entries robots → r ∈ robots → r.access = access →
          Called project.name m.name r.name →
          let others := (bindings project entries (robots.erase r)).map Binding.member
          ∃ ms, (c.serve replier (.members project) t).1 = .ok ms
            ∧ ms.Perm (m :: others)
            ∧ diff ms (m :: others) = []
            ∧ ∀ expected, m ∈ expected → ∀ change ∈ diff ms expected, change.element ≠ m := by
  obtain ⟨request, reply, hlog, hmethod, haccess⟩ :=
    exchanged_assign_robot hvendor hc hrobot hrole replier s project
  refine ⟨request, reply, _, hlog, hmethod, haccess,
    fun t entries robots r hroster hr hstored hname => ⟨_, hroster.serve_members hvendor, ?_⟩⟩
  have hmember : r.member project.name = m := by
    rw [RobotItem.member, robotMemberName_of_called hname, hstored, robotRole_accessOf hrole,
      ← hrobot]
  have hperm : (Member.sort ((bindings project entries robots).map Binding.member)).Perm
      (r.member project.name :: (bindings project entries (robots.erase r)).map Binding.member) :=
    perm_members hr
  rw [hmember] at hperm
  refine ⟨hperm, diff_eq_nil_iff.2 fun x => hperm.mem_iff, fun expected hm change hchange => ?_⟩
  have hreported := hperm.mem_iff.2 List.mem_cons_self
  rintro rfl
  rcases mem_diff.1 hchange with ⟨x, rfl, -, hx⟩ | ⟨x, rfl, -, hx⟩
  · exact hx hm
  · exact hx hreported

/-- A project with a number. -/
def numbered : Project := ⟨"p", some "7"⟩

/-- A robot whose name has all marks in it. -/
def marked : Member := ⟨"robot$p+p+ci", .robot, "PullAndPush"⟩

/-- The robot as it is told. -/
def markedItem : RobotItem :=
  ⟨22, "robot$p+robot$p+p+ci",
    [⟨"/project/7/repository", "pull"⟩, ⟨"/project/7/repository", "push"⟩]⟩

/-- A user is told. -/
def markedEntries : Reply :=
  .answered 200 "[\x7b\"id\":5,\"entity_name\":\"ana\",\"entity_type\":\"u\",\"role_id\":2\x7d]"

/-- A robot that may do nothing is told, and the robot with the marks. -/
def markedRobots : Reply :=
  .answered 200 ("[\x7b\"id\":21,\"name\":\"robot$idle\"\x7d,"
    ++ "\x7b\"id\":22,\"name\":\"robot$p+robot$p+p+ci\",\"access\":["
    ++ "\x7b\"resource\":\"/project/7/repository\",\"action\":\"pull\"\x7d,"
    ++ "\x7b\"resource\":\"/project/7/repository\",\"action\":\"push\"\x7d]\x7d]")

/-- A peer that tells of the user and of the robots. -/
def markedPeer : Peer :=
  .scripted (.ofList
    [("GET https://hub.example.com/api/v2.0/projects/p/members?page=1&page_size=100",
      [markedEntries]),
     ("GET https://hub.example.com/api/v2.0/projects/p/robots?page=1&page_size=100",
      [markedRobots])])
    (.answered 201 "")

theorem roster_marked : guardedHub.Roster Peer.reply numbered markedPeer [⟨5, "ana", "u", 2⟩]
    [⟨21, "robot$idle", []⟩, markedItem] where
  entries := by
    have hreply : (Listing.members numbered).reply guardedHub Peer.reply markedPeer 0
        = markedEntries := by decide +kernel
    exact .of_reply (by decide) hreply (by decide) (by decide +kernel) (by decide)
  robots := by
    have hreply : (Listing.robots numbered).reply guardedHub Peer.reply
        ((memberItems guardedHub numbered).run Peer.reply markedPeer).2 0 = markedRobots := by
      decide +kernel
    exact .of_reply (by decide) hreply (by decide) (by decide +kernel) (by decide)

theorem robot_reported_marked : ∃ ms,
    (guardedHub.serve Peer.reply (.members numbered) markedPeer).1 = .ok ms
      ∧ ms.Perm [marked, ⟨"ana", .user, "Developer"⟩, ⟨"idle", .robot, "PullOnly"⟩]
      ∧ diff ms [marked, ⟨"ana", .user, "Developer"⟩, ⟨"idle", .robot, "PullOnly"⟩] = [] := by
  have hopen : guardedHub.Open := ⟨⟨⟨[""], rfl⟩, rfl⟩, Web.Connection.pagesCountable_pos⟩
  obtain ⟨request, reply, access, hlog, -, haccess, hreported⟩ :=
    robot_reported (m := marked) rfl hopen rfl rfl numbered Peer.reply markedPeer
  have hasked : (guardedHub.exchanged Peer.reply markedPeer (.assign numbered marked)).map
      (fun e => e.1.access?) = [some markedItem.access] := by decide +kernel
  rw [hlog, List.map_singleton, haccess] at hasked
  have hstored : markedItem.access = access := (Option.some.inj (List.cons.inj hasked).1).symm
  have hmem : markedItem ∈ [⟨21, "robot$idle", []⟩, markedItem] := by simp
  obtain ⟨ms, hms, hperm, hdiff, -⟩ := hreported markedPeer _ _ markedItem roster_marked hmem
    hstored .ofProject
  exact ⟨ms, hms, hperm, hdiff⟩

end Web.Connection

end RegistryFleet
