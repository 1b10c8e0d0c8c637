import RegistryFleet.Proofs.Json.Place
import RegistryFleet.Proofs.Vendor.Adapter
import RegistryFleet.Web.Peer

/-!
# Proofs/Vendor/Permission — what a change of one user leaves of a permission target

A user is bound or unbound by reading the permission target, changing it and putting it back. What
is put back says what was read and nothing more: the name, the pattern, the repositories, and the
actions of each user. So the change is the change of one user just where the document has these and
nothing else; whatever else it has is gone, and what it lacks of these is there afterwards.

* `Permission.Carried` — the places that are read and put back.
* `Permission.Plain` — documents that have these places and no others.
* `Connection.edit_sets_iff` — what is put back, and when it is the document with one user changed.
-/

namespace RegistryFleet

open Json (Typed lastField?)
open Json.Node (look Sets)
open Web (Connection Exchanges Peer Reply Request)

namespace Artifactory.Permission

variable {p : Permission} {doc n m : Json.Node} {users : Keyed (List String)} {user : String}
  {place : List String}

/-! ## Reading -/

/-- How the fields of a permission target are read. -/
def known (s : Fields) (field : String) : Option (Typed Fields) :=
  match field with
  | "name" => some (.once s.name "name" .text fun v => { s with name := some v })
  | "includesPattern" =>
    some (.once s.includesPattern "includesPattern" .text fun v =>
      { s with includesPattern := some v })
  | "repositories" =>
    some (.once s.repositories "repositories" (.list .text) fun v =>
      { s with repositories := some v })
  | "principals" =>
    some (.once s.users "principals" readPrincipals fun v => { s with users := some v })
  | _ => none

theorem read_eq : read = .record "a permission target"
    [("name", false), ("includesPattern", true), ("repositories", true), ("principals", true)]
    (⟨none, none, none, none⟩ : Fields) known fun s => do
      return ⟨← Typed.required s.name "name", s.includesPattern.getD "", s.repositories.getD [],
        s.users.getD .empty⟩ := rfl

/-- A field leaves the others as they are. -/
theorem others_of_known {s s' : Fields} {field : String} {r : Typed Fields}
    (h : known s field = some r) (hn : r n = .ok s') :
    (field ≠ "name" → s'.name = s.name)
      ∧ (field ≠ "includesPattern" → s'.includesPattern = s.includesPattern)
      ∧ (field ≠ "repositories" → s'.repositories = s.repositories)
      ∧ (field ≠ "principals" → s'.users = s.users) := by
  unfold known at h
  split at h
  case h_5 => cases h
  all_goals
    obtain rfl := Option.some.inj h
    obtain ⟨-, b, -, rfl⟩ := Typed.of_once hn
    simp

theorem slot_name : Typed.Slot known "name" .text Fields.name where
  there _ := ⟨_, rfl, fun _ => rfl⟩
  elsewhere _ _ _ _ _ hne hr hn := (others_of_known hr hn).1 hne

theorem slot_includesPattern :
    Typed.Slot known "includesPattern" .text Fields.includesPattern where
  there _ := ⟨_, rfl, fun _ => rfl⟩
  elsewhere _ _ _ _ _ hne hr hn := (others_of_known hr hn).2.1 hne

theorem slot_repositories :
    Typed.Slot known "repositories" (.list .text) Fields.repositories where
  there _ := ⟨_, rfl, fun _ => rfl⟩
  elsewhere _ _ _ _ _ hne hr hn := (others_of_known hr hn).2.2.1 hne

theorem slot_principals : Typed.Slot known "principals" readPrincipals Fields.users where
  there _ := ⟨_, rfl, fun _ => rfl⟩
  elsewhere _ _ _ _ _ hne hr hn := (others_of_known hr hn).2.2.2 hne

/-- **What a document holds** that a permission target is read from. -/
structure Holds (doc : Json.Node) (p : Permission) : Prop where
  name : doc.field? "name" = some (.text p.name)
  pattern : ∀ n, doc.field? "includesPattern" = some n → n = .text p.includesPattern
  repositories : ∀ n, doc.field? "repositories" = some n → n = (Data.texts p.repositories).node
  principals : ∀ n, doc.field? "principals" = some n → readPrincipals n = .ok p.users
  noPrincipals : doc.field? "principals" = none → p.users = .empty

/-- A permission target is read from a record that holds it, or from a list. -/
theorem of_read (h : read doc = .ok p) :
    (∃ fs, doc = .record fs false ∧ Holds doc p) ∨ ∃ ns, doc = .list ns := by
  rw [read_eq] at h
  refine (Typed.of_record h).imp_left ?_
  rintro ⟨fs, s, rfl, hfields, hfinish⟩
  obtain ⟨name, hname, hp⟩ := Typed.ok_of_bind hfinish
  obtain rfl := Except.ok.inj hp
  obtain ⟨n, hn, hread⟩ := slot_name.of_seen hfields rfl (Typed.eq_some_of_required hname)
  refine ⟨fs, rfl, ?_, fun n hn => ?_, fun n hn => ?_, fun n hn => ?_, fun hn => ?_⟩
  · exact hn.trans (congrArg some (Typed.eq_text_of_ok hread))
  · obtain ⟨b, hb, hseen⟩ := slot_includesPattern.of_there hfields rfl hn
    rw [hseen]
    exact Typed.eq_text_of_ok hb
  · obtain ⟨b, hb, hseen⟩ := slot_repositories.of_there hfields rfl hn
    rw [hseen, Data.node_texts]
    exact Typed.eq_texts_of_ok hb
  · obtain ⟨b, hb, hseen⟩ := slot_principals.of_there hfields rfl hn
    rw [hseen]
    exact hb
  · rw [slot_principals.of_missing hfields rfl hn]
    rfl

/-- How the fields of principals are read. -/
def knownPrincipals (s : Option (Keyed (List String))) (field : String) :
    Option (Typed (Option (Keyed (List String)))) :=
  match field with
  | "users" => some (.once s "users" (.map (.list .text)) some)
  | _ => none

theorem slot_users : Typed.Slot knownPrincipals "users" (.map (.list .text)) id where
  there _ := ⟨_, rfl, fun _ => rfl⟩
  elsewhere s other r n s' hne hr hn := by
    unfold knownPrincipals at hr
    split at hr
    · exact absurd rfl hne
    · cases hr

theorem readPrincipals_eq : readPrincipals = .record "principals" [("users", true)] none
    knownPrincipals fun s => .ok (s.getD .empty) := rfl

/-- Users are read from a record that has them under `users`, or from a list. -/
theorem of_readPrincipals (h : readPrincipals n = .ok users) :
    (∀ m, n.field? "users" = some m → Typed.map (.list .text) m = .ok users)
      ∧ ((∃ fs, n = .record fs false ∧ (n.field? "users" = none → users = .empty))
        ∨ ∃ ns, n = .list ns) := by
  rw [readPrincipals_eq] at h
  rcases Typed.of_record h with ⟨fs, s, rfl, hfields, hfinish⟩ | ⟨ns, rfl⟩
  · obtain rfl := Except.ok.inj hfinish
    refine ⟨fun m hm => ?_, .inl ⟨fs, rfl, fun hm => ?_⟩⟩
    · obtain ⟨b, hb, hseen⟩ := slot_users.of_there hfields rfl hm
      obtain rfl : s = some b := hseen
      exact hb
    · obtain rfl : s = none := slot_users.of_missing hfields rfl hm
      rfl
  · exact ⟨fun _ hm => (nomatch hm), .inr ⟨ns, rfl⟩⟩

/-- **The actions of a user** as they stand in a document. -/
def actionsNode (users : Keyed (List String)) (user : String) : Option Json.Node :=
  (users.get? user).map fun actions => (Data.texts actions).node

/-- A map of users is read from a record that has the actions of each. -/
theorem of_readUsers (h : Typed.map (.list .text) m = .ok users) :
    m.face = .record [] false ∧ ∀ user, m.field? user = actionsNode users user := by
  obtain ⟨fs, rfl, hkeys⟩ := Typed.of_map h
  refine ⟨rfl, fun user => ?_⟩
  unfold actionsNode
  rcases hkeys user with ⟨hnone, hget⟩ | ⟨n, actions, hsome, hread, hget⟩
  · rw [hget]
    exact hnone
  · rw [hget, Json.Node.field?, hsome, Typed.eq_texts_of_ok hread, Option.map_some, Data.node_texts]

/-! ## What is put in place -/

/-- Where the actions of a user stand. -/
def userPlace (user : String) : List String := ["principals", "users", user]

/-- **The places that are read and put back.** -/
inductive Carried : List String → Prop
  | name : Carried ["name"]
  | pattern : Carried ["includesPattern"]
  | repositories : Carried ["repositories"]
  | users : Carried ["principals", "users"]
  | user (user : String) : Carried (userPlace user)

/-- The users as they are put in place. -/
def usersData (p : Permission) : Data := .record (p.users.entries.map fun e => (e.1, .texts e.2))

/-- The principals as they are put in place. -/
def principalsData (p : Permission) : Data := .record [("users", p.usersData)]

/-- What stands under the names of a permission target that is put in place. -/
theorem field?_data (p : Permission) (name : String) : p.data.node.field? name
    = if name = "name" then some (.text p.name)
      else if name = "includesPattern" then some (.text p.includesPattern)
      else if name = "repositories" then some (Data.texts p.repositories).node
      else if name = "principals" then some p.principalsData.node
      else none := by
  split_ifs with hname hpattern hrepositories hprincipals
  · subst hname; rfl
  · subst hpattern; rfl
  · subst hrepositories; rfl
  · subst hprincipals; rfl
  · simp only [data, Data.node, Data.fieldNodes, Json.Node.field?, lastField?, Ne.symm hname,
      Ne.symm hpattern, Ne.symm hrepositories, Ne.symm hprincipals, if_false, Option.or_none]

/-- No number is put in place. -/
theorem numberless_data (p : Permission) : p.data.Numberless := by
  have husers : p.usersData.Numberless := by
    rw [usersData, Data.Numberless, Data.numberlessFields_iff]
    rintro f hf
    obtain ⟨e, -, rfl⟩ := List.mem_map.1 hf
    exact Data.numberless_texts e.2
  exact ⟨trivial, trivial, Data.numberless_texts p.repositories, ⟨husers, trivial⟩, trivial⟩

theorem field?_principalsData (p : Permission) (name : String) :
    p.principalsData.node.field? name = if name = "users" then some p.usersData.node else none := by
  rw [principalsData, Data.node, Data.fieldNodes, Data.fieldNodes, Json.Node.field?, lastField?,
    lastField?, Option.none_or]
  exact if_congr eq_comm rfl rfl

theorem field?_usersData (p : Permission) (user : String) :
    p.usersData.node.field? user = actionsNode p.users user :=
  Data.field?_ofMap p.users Data.texts user

theorem look_data_principals (p : Permission) (place : List String) :
    look (some p.data.node) ("principals" :: place) = look (some p.principalsData.node) place := by
  rw [look, field?_data]
  rfl

theorem look_data_users (p : Permission) (place : List String) :
    look (some p.data.node) ("principals" :: "users" :: place)
      = look (some p.usersData.node) place := by
  rw [look_data_principals, look, field?_principalsData]
  rfl

/-- **The actions of a user** that are put in place. -/
theorem look_data_user (p : Permission) (user : String) (below : List String) :
    look (some p.data.node) ("principals" :: "users" :: user :: below)
      = look (actionsNode p.users user) below := by
  rw [look_data_users, look, field?_usersData]

/-- Nothing is said below the actions of a user. -/
theorem eq_nil_of_look_actions {below : List String}
    (h : look (actionsNode users user) below = some n) : below = [] := by
  unfold actionsNode at h
  rcases hget : users.get? user with _ | actions
  · rw [hget] at h
    exact nomatch (Json.Node.look_none below).symm.trans h
  · rw [hget, Option.map_some, Data.node_texts] at h
    exact Json.Node.eq_nil_of_look_list h

theorem carried_of_look_principals : ∀ {place : List String},
    look (some p.principalsData.node) place = some n →
      "principals" :: place = ["principals"] ∨ Carried ("principals" :: place)
  | [], _ => .inl rfl
  | name :: place, h => by
      rw [look, field?_principalsData] at h
      split_ifs at h with husers
      · subst husers
        rcases place with _ | ⟨user, below⟩
        · exact .inr .users
        · rw [look, field?_usersData] at h
          rw [eq_nil_of_look_actions h]
          exact .inr (.user user)
      · cases (Json.Node.look_none place).symm.trans h

/-- **What is put in place is said at these places only.** -/
theorem carried_of_look_data : ∀ {place : List String}, look (some p.data.node) place = some n →
    place = [] ∨ place = ["principals"] ∨ Carried place
  | [], _ => .inl rfl
  | name :: place, h => by
      rw [look, field?_data] at h
      split_ifs at h with hname hpattern hrepositories hprincipals
      · rw [hname, Json.Node.eq_nil_of_look_text h]
        exact .inr (.inr .name)
      · rw [hpattern, Json.Node.eq_nil_of_look_text h]
        exact .inr (.inr .pattern)
      · rw [Data.node_texts] at h
        rw [hrepositories, Json.Node.eq_nil_of_look_list h]
        exact .inr (.inr .repositories)
      · rw [hprincipals]
        exact .inr (carried_of_look_principals h)
      · cases (Json.Node.look_none place).symm.trans h

/-! ## What is put back of what was read -/

/-- A document that says something under a name is a record. -/
theorem holds_of_look {name : String} (h : read doc = .ok p)
    (hlook : look (some doc) (name :: place) = some n) : Holds doc p := by
  rcases of_read h with ⟨fs, -, holds⟩ | ⟨ns, rfl⟩
  · exact holds
  · exact nomatch Json.Node.eq_nil_of_look_list hlook

/-- What a document says of the users is put back. -/
theorem look_data_of_look_users (h : read doc = .ok p)
    (hlook : look (some doc) ("principals" :: "users" :: place) = some n) :
    look (some p.data.node) ("principals" :: "users" :: place) = some n := by
  have holds := holds_of_look h hlook
  obtain ⟨m, hprincipals, hlook⟩ := Json.Node.exists_field_of_look hlook
  obtain ⟨m', husers, hlook⟩ := Json.Node.exists_field_of_look hlook
  have hread := (of_readPrincipals (holds.principals m hprincipals)).1 m' husers
  obtain ⟨hface, hactions⟩ := of_readUsers hread
  rw [look_data_users]
  rcases place with _ | ⟨user, below⟩
  · rw [look, hface] at hlook
    exact hlook
  · rw [look, hactions] at hlook
    rw [look, field?_usersData]
    exact hlook

/-- **What a document says at one of these places is put back.** -/
theorem look_data_of_look (h : read doc = .ok p) (hplace : Carried place)
    (hlook : look (some doc) place = some n) : look (some p.data.node) place = some n := by
  rcases hplace with _ | _ | _ | _ | user
  · rw [look, (holds_of_look h hlook).name] at hlook
    exact hlook
  · have holds := holds_of_look h hlook
    obtain ⟨m, hm, hlook⟩ := Json.Node.exists_field_of_look hlook
    rw [holds.pattern m hm] at hlook
    exact hlook
  · have holds := holds_of_look h hlook
    obtain ⟨m, hm, hlook⟩ := Json.Node.exists_field_of_look hlook
    rw [holds.repositories m hm] at hlook
    exact hlook
  · exact look_data_of_look_users h hlook
  · exact look_data_of_look_users h hlook

/-- **A document that has these places and no others.** -/
structure Plain (doc : Json.Node) : Prop where
  record : look (some doc) [] = some (.record [] false)
  pattern : ∃ n, look (some doc) ["includesPattern"] = some n
  repositories : ∃ n, look (some doc) ["repositories"] = some n
  principals : ∀ n, look (some doc) ["principals"] = some n → n = .record [] false
  only : ∀ place n, look (some doc) place = some n →
    place = [] ∨ place = ["principals"] ∨ Carried place

namespace Plain

/-- A plain document has every field that is read. -/
theorem holds (hplain : Plain doc) (h : read doc = .ok p) : Holds doc p :=
  let ⟨_, hpattern⟩ := hplain.pattern
  holds_of_look h hpattern

/-- The actions of a user are put back as a plain document has them. -/
theorem look_user (hplain : Plain doc) (h : read doc = .ok p) (user : String) :
    look (some doc) (userPlace user) = look (some p.data.node) (userPlace user) := by
  have hempty : p.users = .empty → look (actionsNode p.users user) [] = none := by
    intro he
    rw [he]
    rfl
  rw [userPlace, look_data_user, look]
  rcases hm : doc.field? "principals" with _ | m
  · rw [hempty ((hplain.holds h).noPrincipals hm), Json.Node.look_none]
  obtain ⟨husers, hrecord⟩ := of_readPrincipals ((hplain.holds h).principals m hm)
  rw [look]
  rcases hm' : m.field? "users" with _ | m'
  · rcases hrecord with ⟨fs, -, hnone⟩ | ⟨ns, rfl⟩
    · rw [hempty (hnone hm'), Json.Node.look_none]
    · have hface := hplain.principals (.list ns) (by rw [look, hm]; rfl)
      cases hface
  · rw [look, (of_readUsers (husers m' hm')).2]

/-- **What is put back of a plain document is what it says.** -/
theorem look_eq (hplain : Plain doc) (h : read doc = .ok p) (hplace : Carried place)
    (husers : place ≠ ["principals", "users"]) :
    look (some doc) place = look (some p.data.node) place := by
  have hthere : ∀ {place : List String}, Carried place → (∃ n, look (some doc) place = some n) →
      look (some doc) place = look (some p.data.node) place := by
    rintro place hplace ⟨n, hn⟩
    rw [look_data_of_look h hplace hn, hn]
  rcases hplace with _ | _ | _ | _ | user
  · refine hthere .name ⟨.text p.name, ?_⟩
    rw [look, (hplain.holds h).name]
    rfl
  · exact hthere .pattern hplain.pattern
  · exact hthere .repositories hplain.repositories
  · exact absurd rfl husers
  · exact hplain.look_user h user

end Plain

/-! ## One user changed -/

/-- A permission target with the actions of one user put or taken away. -/
def edited (p : Permission) (user : String) : Option (List String) → Permission
  | some actions => { p with users := p.users.insert user actions }
  | none => { p with users := p.users.erase user }

/-- Actions as they stand in a document. -/
def valueNode (value : Option (List String)) : Option Json.Node :=
  value.map fun actions => (Data.texts actions).node

theorem actionsNode_edited (p : Permission) (user : String) (value : Option (List String))
    (other : String) : actionsNode (p.edited user value).users other
      = if other = user then valueNode value else actionsNode p.users other := by
  unfold actionsNode valueNode
  rcases value with _ | actions
  · rw [edited, Keyed.get?_erase]
    split_ifs <;> rfl
  · rw [edited, Keyed.get?_insert]
    split_ifs <;> rfl

/-- The change is there. -/
theorem look_edited_user (p : Permission) (user : String) (value : Option (List String))
    (below : List String) :
    look (some (p.edited user value).data.node) (userPlace user ++ below)
      = look (valueNode value) below := by
  rw [userPlace, List.cons_append, List.cons_append, List.cons_append, List.nil_append,
    look_data_user, actionsNode_edited, if_pos rfl]

/-- A change of the users leaves the other fields. -/
theorem field?_edited (p : Permission) (user : String) (value : Option (List String))
    {name : String} (hname : name ≠ "principals") :
    (p.edited user value).data.node.field? name = p.data.node.field? name := by
  rw [field?_data, field?_data, if_neg hname, if_neg hname]
  rcases value with _ | actions <;> rfl

/-- A change of one user leaves the other users. -/
theorem look_edited_users (p : Permission) (user : String) (value : Option (List String)) :
    ∀ {place : List String}, ¬ [user] <+: place →
      look (some (p.edited user value).usersData.node) place = look (some p.usersData.node) place
  | [], _ => rfl
  | other :: below, hplace => by
      have hother : other ≠ user := by
        rintro rfl
        exact hplace ⟨below, rfl⟩
      rw [look, look, field?_usersData, field?_usersData, actionsNode_edited, if_neg hother]

/-- **The change is nowhere else.** -/
theorem look_edited_aside (p : Permission) (user : String) (value : Option (List String)) :
    ∀ {place : List String}, ¬ userPlace user <+: place →
      look (some (p.edited user value).data.node) place = look (some p.data.node) place
  | [], _ => rfl
  | name :: place, hplace => by
      by_cases hname : name = "principals"
      · subst hname
        rw [look_data_principals, look_data_principals]
        rcases place with _ | ⟨second, place⟩
        · rfl
        rw [look, look, field?_principalsData, field?_principalsData]
        by_cases hsecond : second = "users"
        · subst hsecond
          exact look_edited_users p user value (by simpa [userPlace] using hplace)
        · rw [if_neg hsecond, if_neg hsecond]
      · rw [look, look, field?_edited p user value hname]

/-- Of the carried places, only that of the user is below it. -/
theorem not_prefix_of_carried (hplace : Carried place) (hne : place ≠ userPlace user) :
    ¬ userPlace user <+: place := by
  rintro ⟨below, he⟩
  rcases hplace with _ | _ | _ | _ | other
  all_goals simp only [userPlace, List.cons_append, List.cons.injEq, reduceCtorEq, and_false] at he
  obtain ⟨-, -, rfl, -⟩ := he
  exact hne rfl

/-- The places that lead to that of a user. -/
theorem of_prefix_userPlace (hplace : place <+: userPlace user) :
    place = [] ∨ place = ["principals"] ∨ place = ["principals", "users"]
      ∨ place = userPlace user := by
  simp only [userPlace, List.prefix_cons_iff, List.prefix_nil] at hplace
  rcases hplace with rfl | ⟨_, rfl, rfl | ⟨_, rfl, rfl | ⟨_, rfl, rfl⟩⟩⟩ <;> simp [userPlace]

/-- A document that is put back with one user changed is plain. -/
theorem plain_of_sets {value : Option (List String)} (h : read doc = .ok p)
    (hsets : Sets (userPlace user) (valueNode value) (some doc)
      (some (p.edited user value).data.node)) : Plain doc := by
  refine ⟨?_, ?_, ?_, fun n hn => ?_, fun place n hn => ?_⟩
  · exact (hsets.above [] doc.face List.nil_prefix (List.cons_ne_nil _ _).symm rfl).symm
  · rw [← hsets.aside ["includesPattern"] (by simp [userPlace]) (by simp [userPlace])]
    exact ⟨_, by rw [look, field?_data]; rfl⟩
  · rw [← hsets.aside ["repositories"] (by simp [userPlace]) (by simp [userPlace])]
    exact ⟨_, by rw [look, field?_data]; rfl⟩
  · have hbody := hsets.above ["principals"] n (by simp [userPlace]) (by simp [userPlace]) hn
    rw [look_data_principals] at hbody
    exact (Option.some.inj hbody).symm
  · by_cases hbelow : userPlace user <+: place
    · obtain ⟨below, rfl⟩ := hbelow
      exact carried_of_look_data (look_data_of_look_users h hn)
    by_cases habove : place <+: userPlace user
    · rcases of_prefix_userPlace habove with rfl | rfl | rfl | rfl
      · exact .inl rfl
      · exact .inr (.inl rfl)
      · exact .inr (.inr .users)
      · exact .inr (.inr (.user user))
    · rw [← hsets.aside place hbelow habove] at hn
      exact carried_of_look_data hn

/-- Away from a user, a plain document says what is put back of it. -/
theorem Plain.look_aside (hplain : Plain doc) (h : read doc = .ok p)
    (habove : ¬ place <+: userPlace user) :
    look (some doc) place = look (some p.data.node) place := by
  have hcarried : ∀ n, look (some doc) place = some n ∨ look (some p.data.node) place = some n →
      look (some doc) place = look (some p.data.node) place := by
    intro n hn
    rcases hn.elim (hplain.only place n) carried_of_look_data with rfl | rfl | hplace
    · exact absurd List.nil_prefix habove
    · exact absurd (by simp [userPlace]) habove
    · refine hplain.look_eq h hplace ?_
      rintro rfl
      exact habove (by simp [userPlace])
  refine Option.ext fun n => ⟨fun hn => ?_, fun hn => ?_⟩
  · rw [← hcarried n (.inl hn)]
    exact hn
  · rw [hcarried n (.inr hn)]
    exact hn

/-- A plain document is put back with one user changed. -/
theorem Plain.sets (hplain : Plain doc) (h : read doc = .ok p) (user : String)
    (value : Option (List String)) :
    Sets (userPlace user) (valueNode value) (some doc)
      (some (p.edited user value).data.node) where
  there := look_edited_user p user value
  aside _ hbelow habove :=
    (look_edited_aside p user value hbelow).trans (hplain.look_aside h habove).symm
  above place n hplace hne hn := by
    rcases of_prefix_userPlace hplace with rfl | rfl | rfl | rfl
    · rw [hplain.record] at hn
      exact hn
    · obtain rfl := hplain.principals n hn
      rfl
    · rw [look_edited_aside p user value (by simp [userPlace])]
      exact look_data_of_look h .users hn
    · exact absurd rfl hne

/-- **What is put back is the document with one user changed just where the document is plain.** -/
theorem sets_iff (h : read doc = .ok p) (user : String) (value : Option (List String)) :
    Sets (userPlace user) (valueNode value) (some doc) (some (p.edited user value).data.node)
      ↔ Plain doc :=
  ⟨plain_of_sets h, fun hplain => hplain.sets h user value⟩

/-! ## Exchanges -/

/-- A document that was read is understood. -/
theorem read_text {text : String} (htext : Json.ofText text = (doc, true)) (h : read doc = .ok p) :
    (Typed.optional read).read text = .ok (some p) := by
  have hoptional : Typed.optional read doc = .ok (some p) := by
    rcases of_read h with ⟨fs, rfl, -⟩ | ⟨ns, rfl⟩
    all_goals
      rw [Typed.optional, h]
      · rfl
      · exact nofun
  rw [Typed.read, htext]
  change (Typed.optional read doc >>= fun a => .ok a) = _
  rw [hoptional]
  rfl

end Artifactory.Permission

namespace Web.Connection

open Artifactory
open Artifactory.Permission

variable {α σ : Type} {c : Connection} {p : Permission} {doc : Json.Node} {project : Project}
  {member : Member} {get : Request} {reply : Reply} {log rest : List (Request × Reply)}

/-- A permission target that is read and put to use. -/
theorem leads_permission_bind {f : Permission → Exchanges α} {result : Except Error α}
    {name : String} (hreply : Counts (fun body => Json.ofText body = (doc, true)) reply)
    (hread : read doc = .ok p)
    (h : (permission c name >>= f).Leads ((get, reply) :: rest) result) :
    c.request? .get (permissionPath (permissionName c name)) [] none = some get
      ∧ (f p).Leads rest result := by
  rw [permission, bind_assoc] at h
  rcases leads_getDocument_bind h with ⟨e, hsends, -⟩ | ⟨text, front, back, hlog, hsends, h⟩
  · obtain ⟨text, he, -⟩ := hsends.of_counts hreply
    cases he
  · obtain ⟨request, reply', hrequest, rfl, hcounts⟩ := hsends.of_ok
    obtain ⟨⟨rfl, rfl⟩, rfl⟩ := (List.cons.inj hlog).imp_left Prod.mk.inj
    rw [document_of_ok (read_text (hreply.text hcounts) hread)] at h
    exact ⟨hrequest, h⟩

/-- **A call that changes one user** of a permission target, and the actions that it sets. -/
inductive Edits (project : Project) (member : Member) (p : Permission) :
    Call → Option (List String) → Prop
  | assign {actions : List String} (h : roleActions member.role = .ok actions) :
      Edits project member p (.assign project member) (some actions)
  | unassign (h : p.users.contains member.name = true) :
      Edits project member p (.unassign project member) none

/-- **The exchanges of a change of one user**: the permission target is asked for and put back. -/
theorem exchanged_edit {call : Call} {value : Option (List String)}
    (hvendor : c.registry.vendor = .artifactory) (huser : member.type = .user)
    (hedit : Edits project member p call value) (replier : Exchanges.Replier σ) (s : σ)
    (hlog : c.exchanged replier s call = (get, reply) :: rest)
    (hreply : Counts (fun body => Json.ofText body = (doc, true)) reply)
    (hread : read doc = .ok p) :
    c.request? .get (permissionPath (permissionName c project.name)) [] none = some get
      ∧ ∃ put answer, c.request? .put (permissionPath p.name) []
          (some (p.edited member.name value).data) = some put ∧ rest = [(put, answer)] := by
  have hrequired : requireUser member = .ok () := if_pos huser
  have h := c.leads_exchanged replier s call
  rw [hlog] at h
  unfold exchanges at h
  rcases hedit with ⟨hrole⟩ | ⟨hpresent⟩
  all_goals simp only [hvendor] at h
  · rw [Artifactory.assign, hrequired, hrole] at h
    obtain ⟨hget, h⟩ := leads_permission_bind hreply hread h
    refine ⟨hget, ?_⟩
    rcases h.bind with ⟨e, hput, -⟩ | ⟨_, front, back, rfl, hput, rfl, -⟩
    all_goals obtain ⟨sent, hsends, -⟩ := leads_put hput
    · exact hsends.of_address hget
    · rw [List.append_nil]
      exact hsends.of_address hget
  · rw [Artifactory.unassign, hrequired] at h
    obtain ⟨hget, h⟩ := leads_permission_bind hreply hread h
    rw [if_pos hpresent] at h
    obtain ⟨sent, hsends, -⟩ := leads_put h
    exact ⟨hget, hsends.of_address hget⟩

/-- **What a change of one user puts back.** The permission target that is asked for is put in place
with what the document says at the carried places and with nothing else, so it is the document with
one user changed just where the document is plain. -/
theorem edit_sets_iff {call : Call} {value : Option (List String)}
    (hvendor : c.registry.vendor = .artifactory) (huser : member.type = .user)
    (hedit : Edits project member p call value) (replier : Exchanges.Replier σ) (s : σ)
    (hlog : c.exchanged replier s call = (get, reply) :: rest)
    (hreply : Counts (fun body => Json.ofText body = (doc, true)) reply)
    (hread : read doc = .ok p) :
    c.request? .get (permissionPath (permissionName c project.name)) [] none = some get
      ∧ ∃ put answer body, rest = [(put, answer)]
        ∧ c.request? .put (permissionPath p.name) [] (some body) = some put
        ∧ Json.ofText (Json.compact body) = (body.node, true)
        ∧ (∀ place n, Carried place → place ≠ userPlace member.name →
          look (some doc) place = some n → look (some body.node) place = some n)
        ∧ (∀ place n, look (some body.node) place = some n →
          place = [] ∨ place = ["principals"] ∨ Carried place)
        ∧ (Sets (userPlace member.name) (valueNode value) (some doc) (some body.node)
          ↔ Plain doc) := by
  obtain ⟨hget, put, answer, hput, hrest⟩ :=
    exchanged_edit hvendor huser hedit replier s hlog hreply hread
  refine ⟨hget, put, answer, _, hrest, hput, Json.ofText_compact (numberless_data _),
    fun place n hplace hne hn => ?_, fun place n hn => ?_, sets_iff hread member.name value⟩
  · rw [look_edited_aside p member.name value (not_prefix_of_carried hplace hne)]
    exact look_data_of_look hread hplace hn
  · exact carried_of_look_data hn

/-- A connection to a registry whose projects are folders. -/
def mirror : Connection where
  registry := ⟨"mirror", "https://mirror.example.com", ⟨"admin", "pw"⟩, .artifactory, .leaf,
    ⟨false, none⟩, .empty⟩
  base := ⟨"https", "", some "mirror.example.com", none, .segments [""], none, none⟩
  userAgent := ClientSettings.standard.userAgent
  pageSize := ClientSettings.standard.pageSize
  pageLimit := pagesCountable

/-- A peer that has such a permission target for the project `p`. -/
def holding (target : String) : Peer :=
  .scripted (.ofList
    [("GET https://mirror.example.com/artifactory/api/security/permissions/docker_p",
      [.answered 200 target])]) (.answered 200 "")

/-- Someone to bind. -/
def ana : Member := ⟨"ana", .user, "Viewer"⟩

/-- The binding of a user to the project `p`. -/
def bindAna : Call := .assign (.named "p") ana

theorem edits_bindAna {p : Permission} : Edits (.named "p") ana p bindAna (some ["r"]) :=
  .assign rfl

/-- A permission target without principals. -/
def plainTarget : String :=
  "\x7b\"name\":\"docker_p\",\"includesPattern\":\"p/**\",\"repositories\":[\"docker\"]\x7d"

/-- A permission target with a group among the principals. -/
def groupTarget : String :=
  "\x7b\"name\":\"docker_p\",\"includesPattern\":\"p/**\",\"repositories\":[\"docker\"],"
    ++ "\"principals\":\x7b\"groups\":\x7b\"dev\":[\"r\"]\x7d\x7d\x7d"

/-- What is read of either. -/
def targetRead : Permission := ⟨"docker_p", "p/**", ["docker"], .empty⟩

/-- The replies to a binding, and that they hold a permission target. -/
theorem exchanged_bindAna (text : String)
    (h : ((mirror.exchanged Peer.reply (holding text) bindAna).map Prod.snd
        = [.answered 200 text, .answered 200 ""] ∧ withoutMark text = text)
      ∧ (Json.ofText text).2 = true ∧ (read (Json.ofText text).1).toOption = some targetRead) :
    ∃ get put, mirror.exchanged Peer.reply (holding text) bindAna
        = [(get, .answered 200 text), (put, .answered 200 "")]
      ∧ Counts (fun body => Json.ofText body = ((Json.ofText text).1, true)) (.answered 200 text)
      ∧ read (Json.ofText text).1 = .ok targetRead := by
  obtain ⟨⟨hlog, hmark⟩, hcomplete, hread⟩ := h
  have hcounts : Json.ofText (withoutMark text) = ((Json.ofText text).1, true) := by
    rw [hmark]
    exact Prod.ext rfl hcomplete
  generalize mirror.exchanged Peer.reply (holding text) bindAna = log at hlog
  obtain ⟨get, rest, rfl, hget, hrest⟩ := List.map_eq_cons_iff.1 hlog
  obtain ⟨put, rest, rfl, hput, hrest⟩ := List.map_eq_cons_iff.1 hrest
  obtain rfl := List.map_eq_nil_iff.1 hrest
  exact ⟨get.1, put.1, by rw [← hget, ← hput], ⟨by decide, by decide, hcounts⟩,
    Typed.ok_of_toOption hread⟩

theorem edit_sets_iff_ana : ∃ get reply rest,
    mirror.exchanged Peer.reply (holding plainTarget) bindAna = (get, reply) :: rest
      ∧ ∃ put answer body, rest = [(put, answer)]
        ∧ mirror.request? .put (permissionPath "docker_p") [] (some body) = some put
        ∧ (Sets (userPlace "ana") (valueNode (some ["r"]))
            (some (Json.ofText plainTarget).1) (some body.node)
          ↔ Plain (Json.ofText plainTarget).1) := by
  obtain ⟨get, put, hlog, hcounts, hread⟩ := exchanged_bindAna plainTarget (by decide +kernel)
  have hvendor : mirror.registry.vendor = .artifactory := rfl
  obtain ⟨-, put, answer, body, hrest, hput, -, -, -, hsets⟩ :=
    edit_sets_iff hvendor rfl edits_bindAna Peer.reply _ hlog hcounts hread
  exact ⟨get, _, _, hlog, put, answer, body, hrest, hput, hsets⟩

theorem not_carried_group {place : List String} (hplace : place = ["principals", "groups", "dev"]) :
    ¬ (place = [] ∨ place = ["principals"] ∨ Carried place) := by
  rintro (rfl | rfl | _ | _ | _ | _ | user) <;> simp [userPlace] at hplace

/-- **A group loses its permissions** — they stand in the permission target that is asked for, and
not in the one that is put in its place, which therefore is not the same with one user changed. -/
theorem edit_drops_group : ∃ get put body answer,
    mirror.exchanged Peer.reply (holding groupTarget) bindAna
      = [(get, .answered 200 groupTarget), (put, answer)]
    ∧ put.method = .put ∧ put.body = some body
    ∧ (∃ n, look (some (Json.ofText groupTarget).1) ["principals", "groups", "dev"] = some n)
    ∧ look (some body.node) ["principals", "groups", "dev"] = none
    ∧ ¬ Sets (userPlace "ana") (valueNode (some ["r"])) (some (Json.ofText groupTarget).1)
        (some body.node) := by
  obtain ⟨get, put, hlog, hcounts, hread⟩ := exchanged_bindAna groupTarget (by decide +kernel)
  have hvendor : mirror.registry.vendor = .artifactory := rfl
  obtain ⟨-, put', answer, hput, hrest⟩ :=
    exchanged_edit hvendor rfl edits_bindAna Peer.reply _ hlog hcounts hread
  obtain ⟨⟨rfl, rfl⟩, -⟩ := (List.cons.inj hrest).imp_left Prod.mk.inj
  obtain ⟨hmethod, hbody⟩ := of_request? hput
  have hgroup : (look (some (Json.ofText groupTarget).1) ["principals", "groups", "dev"]).isSome :=
    by decide +kernel
  obtain ⟨n, hn⟩ := Option.isSome_iff_exists.1 hgroup
  refine ⟨get, put, _, _, hlog, hmethod, hbody, ⟨n, hn⟩, ?_, fun hsets => ?_⟩
  · rw [look_data_principals, look, field?_principalsData, if_neg (by decide), Json.Node.look_none]
  · exact not_carried_group rfl (((sets_iff hread "ana" (some ["r"])).1 hsets).only _ n hn)

end Web.Connection

end RegistryFleet
