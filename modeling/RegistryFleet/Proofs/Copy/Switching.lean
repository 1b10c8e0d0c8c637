import RegistryFleet.Proofs.Copy.Survival

/-!
# Proofs/Copy/Switching — an edge that changes its transport leaves no stale manifests

The rule of an edge is dealt with time and again, while its trigger, its transport, the repositories
of its project and the settings change. Its manifests are always named alike, so that each call
finds those of the call before it; a call that fails does so before it has written anything.

* `CopyJob.Edge.Course` — what a history of calls has done; one call is `exists_course_call`, two
  histories one after the other are `Course.append`, and `course_history` is any history.
* `CopyJob.Edge.history_settles` — what the manifests of the edge are at the end, and that nothing
  else is touched.
-/

namespace RegistryFleet

open Files (Simple Folder key)

namespace ManifestDirectory

/-- **A manifest is not there.** -/
def Lacks (d : ManifestDirectory) (files : Files) (o : ClusterObject) : Prop :=
  ∃ path, d.pathOf o = .ok path ∧ files.read path = .error .absent

/-- The manifest of an object is the entry with the key. -/
def Keeps (d : ManifestDirectory) (files : Files) (o : ClusterObject) (k : String) : Prop :=
  ∃ path names entry, d.pathOf o = .ok path ∧ files.locate path = .ok (names, entry) ∧ key names = k

variable {d : ManifestDirectory} {here : List String} {files : Files} {o : ClusterObject}
  {name : String}

/-- A manifest of a folder is not there just if its file is absent. -/
theorem lacks_iff (hpath : d.pathOf o = .ok (Files.join d.path name)) (hname : Simple name)
    (hfolder : files.Folder d.path here) (ht : Folder.Takes files d.path here name) :
    d.Lacks files o ↔ files.at? (here ++ [name]) = none := by
  have hread := hfolder.read_eq hname ht.sound
  rw [Lacks, hpath]
  cases hat : files.at? (here ++ [name]) with
  | none =>
    rw [hat] at hread
    exact iff_of_true ⟨_, rfl, hread⟩ rfl
  | some entry =>
    refine iff_of_false ?_ (Option.some_ne_none entry)
    rintro ⟨path, he, habsent⟩
    obtain rfl := Except.ok.inj he
    rw [hread, hat] at habsent
    cases entry <;> simp at habsent

theorem keeps_of_folder (hpath : d.pathOf o = .ok (Files.join d.path name)) (hname : Simple name)
    (hfolder : files.Folder d.path here) (ht : Folder.Takes files d.path here name) :
    d.Keeps files o (key (here ++ [name])) := by
  refine ⟨_, here ++ [name], files.at? (here ++ [name]), hpath, ?_, rfl⟩
  rw [hfolder.locate_join hname, ht.sound]
  rfl

end ManifestDirectory

namespace CopyJob

/-- **An edge** — a project, the registry that its rule is configured on and the one at its other
end. -/
structure Edge where
  project : String
  here : String
  there : String

/-- **A call for the rule of an edge** — all that may be different the next time. -/
structure Turn (ω : Type) where
  direction : Direction
  trigger : Trigger
  transport : Transport
  settings : JobSettings
  backends : List (Served ω)
  world : ω

variable {ω : Type} {d : ManifestDirectory} {here : List String} {files mid final : Files}

namespace Edge

/-- The rule of the edge at a call. -/
def rule (e : Edge) (t : Turn ω) : Rule :=
  ⟨e.project, e.here, e.there, t.direction, t.trigger, t.transport⟩

/-- The job that a call is to write. -/
def prepared (e : Edge) (t : Turn ω) : Except Failure CopyJob :=
  (prepare t.backends t.settings (e.rule t) t.world).1

/-- **One call**, with the results it returns. -/
def call (e : Edge) (d : ManifestDirectory) (t : Turn ω) (files : Files) :
    List ActionResult × Files :=
  let (results, _, files) := sync t.backends d.store t.settings [e.rule t] t.world files
  (results, files)

/-- **Calls one after the other** — the results of each, and the files at the end. -/
def history (e : Edge) (d : ManifestDirectory) :
    List (Turn ω) → Files → List (Turn ω × ActionResult) × Files
  | [], files => ([], files)
  | t :: rest, files =>
    let (results, files) := e.call d t files
    let (log, files) := e.history d rest files
    (results.map (t, ·) ++ log, files)

/-! ## Deeds -/

/-- The common beginning of the names of the manifests. -/
def base (e : Edge) : String :=
  dnsLabel (e.project ++ "-" ++ e.there) (longestName - "-job".length)

/-- What a call does to the manifests. -/
def deedOf (e : Edge) (t : Turn ω) : Option (Option CopyJob) :=
  (deed t.backends t.settings (e.rule t) t.world).1

/-- What the last call that does something does. -/
def lastDeedOf (e : Edge) : List (Turn ω) → Option (Option CopyJob)
  | [] => none
  | t :: rest => (e.lastDeedOf rest).or (e.deedOf t)

variable {e : Edge} {t : Turn ω} {turns before after : List (Turn ω)}

/-- **The manifests are always named alike**, whatever a call changes. -/
theorem baseName_rule (e : Edge) (t : Turn ω) : baseName (e.rule t) = e.base := rfl

theorem deedOf_native (h : t.transport = .native) : e.deedOf t = some none := by
  have hrule : (e.rule t).transport = .native := h
  rw [deedOf, deed, hrule]

theorem deedOf_copyTool (h : t.transport = .copyTool) :
    e.deedOf t = (e.prepared t).toOption.map some := by
  have hrule : (e.rule t).transport = .copyTool := h
  rw [deedOf, deed, hrule, prepared]
  generalize prepare t.backends t.settings (e.rule t) t.world = out
  obtain ⟨built, world⟩ := out
  cases built <;> rfl

theorem deedOf_eq_none_iff :
    e.deedOf t = none ↔ t.transport = .copyTool ∧ ∃ reason, e.prepared t = .error reason := by
  cases h : t.transport with
  | native => simp [deedOf_native h]
  | copyTool =>
    rw [deedOf_copyTool h]
    cases e.prepared t <;> simp [Except.toOption]

theorem deedOf_eq_written_iff {job : CopyJob} :
    e.deedOf t = some (some job) ↔ t.transport = .copyTool ∧ e.prepared t = .ok job := by
  cases h : t.transport with
  | native => simp [deedOf_native h]
  | copyTool =>
    rw [deedOf_copyTool h]
    cases e.prepared t <;> simp [Except.toOption]

theorem lastDeedOf_append (before after : List (Turn ω)) :
    e.lastDeedOf (before ++ after) = (e.lastDeedOf after).or (e.lastDeedOf before) := by
  induction before with
  | nil => simp [lastDeedOf]
  | cons t rest ih => simp only [List.cons_append, lastDeedOf, ih, Option.or_assoc]

/-- Calls that do nothing, all in all do nothing. -/
theorem lastDeedOf_eq_none (h : ∀ t ∈ turns, e.deedOf t = none) : e.lastDeedOf turns = none := by
  induction turns with
  | nil => rfl
  | cons t rest ih =>
    rw [lastDeedOf, ih fun t ht => h t (List.mem_cons_of_mem _ ht), h t List.mem_cons_self]
    rfl

theorem lastDeedOf_of_split {done : Option CopyJob} (ht : e.deedOf t = some done)
    (hafter : ∀ t ∈ after, e.deedOf t = none) :
    e.lastDeedOf (before ++ t :: after) = some done := by
  rw [lastDeedOf_append, lastDeedOf, lastDeedOf_eq_none hafter, ht]
  rfl

/-! ## The course of a history -/

/-- **What calls have done**, from the files before to those after, and what was said of them. -/
structure Course (e : Edge) (d : ManifestDirectory) (here : List String) (turns : List (Turn ω))
    (log : List (Turn ω × ActionResult)) (files final : Files) : Prop where
  calls : log.map Prod.fst = turns
  told : ∀ x ∈ log, ∃ status, x.2 = .plain (describe (e.rule x.1)) status
    ∧ Told (e.deedOf x.1) status
  ready : Ready d here final e.base
  leaves : slot here final e.base = (e.lastDeedOf turns).elim (slot here files e.base) slotOf
  idle : e.lastDeedOf turns = none → final = files
  rest : ∀ k, k ≠ key (here ++ [configMapFile e.base]) → k ≠ key (here ++ [cronJobFile e.base]) →
    final.entries.get? k = files.entries.get? k

variable {log log' : List (Turn ω × ActionResult)}

/-- No calls. -/
theorem Course.nil (h : Ready d here files e.base) :
    Course e d here ([] : List (Turn ω)) [] files files where
  calls := rfl
  told _ hx := nomatch hx
  ready := h
  leaves := rfl
  idle _ := rfl
  rest _ _ _ := rfl

/-- **Calls, and then others** — the last deed is that of the later ones, if they do anything. -/
theorem Course.append (h : Course e d here before log files mid)
    (h' : Course e d here after log' mid final) :
    Course e d here (before ++ after) (log ++ log') files final where
  calls := by rw [List.map_append, h.calls, h'.calls]
  told x hx := (List.mem_append.1 hx).elim (h.told x) (h'.told x)
  ready := h'.ready
  leaves := by
    rw [h'.leaves, h.leaves, lastDeedOf_append]
    cases e.lastDeedOf after <;> rfl
  idle hnone := by
    rw [lastDeedOf_append, Option.or_eq_none_iff] at hnone
    exact (h'.idle hnone.1).trans (h.idle hnone.2)
  rest k hmap hjob := (h'.rest k hmap hjob).trans (h.rest k hmap hjob)

/-- **One call.** -/
theorem exists_course_call (h : Ready d here files e.base) (t : Turn ω) :
    ∃ r files', e.call d t files = ([r], files')
      ∧ Course e d here [t] [(t, r)] files files' := by
  have hready : Ready d here files (baseName (e.rule t)) := h
  obtain ⟨status, files', hsync, htold, hdeed⟩ :=
    syncRule_told t.backends t.settings t.world hready
  refine ⟨.plain (describe (e.rule t)) status, files', ?_, ?_⟩
  · simp only [call, sync, hsync]
  · have hslot := slot_of_deed hdeed e.base
    rw [baseName_rule, if_pos rfl] at hslot
    refine ⟨rfl, ?_, ready_of_deed hdeed h, hslot, fun hnone => ?_, fun k hmap hjob => ?_⟩
    · rintro x hx
      obtain rfl := List.mem_singleton.1 hx
      exact ⟨status, rfl, htold⟩
    · change e.deedOf t = none at hnone
      rw [deedOf] at hnone
      rwa [hnone] at hdeed
    · cases hdone : (deed t.backends t.settings (e.rule t) t.world).1 with
      | none =>
        rw [hdone] at hdeed
        rw [hdeed]
      | some job =>
        rw [hdone] at hdeed
        exact hdeed.rest k hmap hjob

/-- **Any history of calls** has a course. -/
theorem course_history (turns : List (Turn ω)) (h : Ready d here files e.base) :
    Course e d here turns (e.history d turns files).1 files (e.history d turns files).2 := by
  induction turns generalizing files with
  | nil => exact .nil h
  | cons t rest ih =>
    obtain ⟨r, mid, hcall, hcourse⟩ := exists_course_call h t
    simp only [history, hcall]
    exact hcourse.append (ih hcourse.ready)

/-! ## What is said of a call -/

theorem isFailed_plain_iff {done : Option (Option CopyJob)} {status : ActionStatus} {text : String}
    (h : Told done status) : (ActionResult.plain text status).isFailed = true ↔ done = none := by
  rcases done with _ | _ | job
  · obtain ⟨reason, rfl⟩ := h
    exact iff_of_true rfl rfl
  · obtain ⟨reason, rfl⟩ := h
    simp [ActionResult.isFailed, ActionResult.plain]
  · obtain rfl : status = .succeeded := h
    simp [ActionResult.isFailed, ActionResult.plain]

theorem Course.isFailed_iff (h : Course e d here turns log files final) {x : Turn ω × ActionResult}
    (hx : x ∈ log) : x.2.isFailed = true ↔ e.deedOf x.1 = none := by
  obtain ⟨status, hresult, htold⟩ := h.told x hx
  rw [hresult, isFailed_plain_iff htold]

theorem Course.succeeded_iff (h : Course e d here turns log files final)
    {x : Turn ω × ActionResult} (hx : x ∈ log) :
    x.2.status = .succeeded ↔ ∃ job, e.deedOf x.1 = some (some job) := by
  obtain ⟨status, hresult, htold⟩ := h.told x hx
  rw [hresult]
  exact htold.succeeded_iff

/-- The result of a call stands in the log where the call stands among the calls. -/
theorem Course.split {x : Turn ω × ActionResult} {front back : List (Turn ω × ActionResult)}
    (h : Course e d here turns log files final) (hlog : log = front ++ x :: back) :
    turns = front.map Prod.fst ++ x.1 :: back.map Prod.fst := by
  rw [← h.calls, hlog, List.map_append, List.map_cons]

/-- **The last deed of a history** is that of a call behind which no call does anything. -/
theorem Course.leaves_of_split {x : Turn ω × ActionResult}
    {front back : List (Turn ω × ActionResult)} {done : Option CopyJob}
    (h : Course e d here turns log files final) (hlog : log = front ++ x :: back)
    (hdone : e.deedOf x.1 = some done) (hback : ∀ y ∈ back, e.deedOf y.1 = none) :
    slot here final e.base = slotOf done := by
  rw [h.leaves, h.split hlog, lastDeedOf_of_split hdone (List.forall_mem_map.2 hback)]
  rfl

/-! ## What is there at the end -/

/-- A call without a job to write changes nothing. -/
theorem deedOf_of_not_succeeded {x : Turn ω × ActionResult}
    (h : Course e d here turns log files final) (hx : x ∈ log) (hcopy : x.1.transport = .copyTool)
    (hnot : x.2.status ≠ .succeeded) : e.deedOf x.1 = none := by
  rw [deedOf_copyTool hcopy]
  cases hprepared : e.prepared x.1 with
  | error reason => rfl
  | ok job =>
    exact absurd ((h.succeeded_iff hx).2 ⟨job, deedOf_eq_written_iff.2 ⟨hcopy, hprepared⟩⟩) hnot

theorem names_of_prepared {job : CopyJob} (h : e.prepared t = .ok job) :
    job.configMap.metadata.name = some (configMapName (e.rule t))
      ∧ job.cronJob.metadata.name = some (jobName (e.rule t)) :=
  names_of_prepare (Prod.ext h rfl)

/-- The manifests of a removed job are not there. -/
theorem lacks_of_slot (settings : JobSettings) {rule : Rule}
    (h : Ready d here files (baseName rule))
    (hslot : slot here files (baseName rule) = slotOf none) :
    ∀ o ∈ identity settings rule, d.Lacks files o := by
  obtain ⟨hmap, hjob⟩ := Prod.mk.inj hslot
  rw [identity, List.forall_mem_cons, List.forall_mem_singleton,
    ManifestDirectory.lacks_iff (pathOf_cronJob d rfl) (simple_cronJobFile rule) h.folder h.cronJob,
    ManifestDirectory.lacks_iff (pathOf_configMap d rfl) (simple_configMapFile rule) h.folder
      h.configMap]
  exact ⟨hjob, hmap⟩

/-- **The job of the last call that succeeded** is there, if no native call came after it. -/
theorem Course.holds_of_succeeded {r : ActionResult} {front back : List (Turn ω × ActionResult)}
    (h : Course e d here turns log files final) (hlog : log = front ++ (t, r) :: back)
    (hsucceeded : r.status = .succeeded)
    (hback : ∀ x ∈ back, x.1.transport = .copyTool ∧ x.2.status ≠ .succeeded) :
    ∃ job, e.prepared t = .ok job ∧ ∀ o ∈ job.objects, d.Holds final o := by
  have hmem : (t, r) ∈ log := hlog ▸ by simp
  obtain ⟨job, hdone⟩ := (h.succeeded_iff hmem).1 hsucceeded
  obtain ⟨-, hprepared⟩ := deedOf_eq_written_iff.1 hdone
  obtain ⟨hmap, hjob⟩ := names_of_prepared hprepared
  refine ⟨job, hprepared, (holds_iff_slot hmap hjob h.ready).2 ?_⟩
  exact h.leaves_of_split hlog hdone fun x hx =>
    deedOf_of_not_succeeded h (hlog ▸ by simp [hx]) (hback x hx).1 (hback x hx).2

/-- **No job is there** after a native call that only failed ones came after. -/
theorem Course.lacks_of_native {r : ActionResult} {front back : List (Turn ω × ActionResult)}
    (h : Course e d here turns log files final) (hlog : log = front ++ (t, r) :: back)
    (hnative : t.transport = .native) (hback : ∀ x ∈ back, x.2.isFailed = true) :
    ∀ o ∈ identity t.settings (e.rule t), d.Lacks final o := by
  refine lacks_of_slot t.settings h.ready ?_
  exact h.leaves_of_split hlog (deedOf_native hnative) fun x hx =>
    (h.isFailed_iff (hlog ▸ by simp [hx])).1 (hback x hx)

/-- **Nothing has changed** after calls that all failed. -/
theorem Course.unchanged_of_failed (h : Course e d here turns log files final)
    (hall : ∀ x ∈ log, x.2.isFailed = true) : final = files := by
  refine h.idle (lastDeedOf_eq_none ?_)
  rw [← h.calls, List.forall_mem_map]
  exact fun x hx => (h.isFailed_iff hx).1 (hall x hx)

/-- An entry that is no manifest of a rule is neither of its two files. -/
theorem ne_of_not_keeps (settings : JobSettings) (rule : Rule)
    (h : Ready d here files (baseName rule)) {k : String}
    (hk : ∀ o ∈ identity settings rule, ¬ d.Keeps files o k) :
    k ≠ key (here ++ [configMapFile (baseName rule)])
      ∧ k ≠ key (here ++ [cronJobFile (baseName rule)]) := by
  rw [identity, List.forall_mem_cons, List.forall_mem_singleton] at hk
  refine ⟨?_, ?_⟩
  · rintro rfl
    exact hk.2 (ManifestDirectory.keeps_of_folder (pathOf_configMap d rfl)
      (simple_configMapFile rule) h.folder h.configMap)
  · rintro rfl
    exact hk.1 (ManifestDirectory.keeps_of_folder (pathOf_cronJob d rfl) (simple_cronJobFile rule)
      h.folder h.cronJob)

/-- The manifests of an edge have places in a folder, if each call could write them. -/
theorem ready_of_turns (ht : t ∈ turns)
    (h : ∀ t ∈ turns, ∀ o ∈ identity t.settings (e.rule t), d.Accepts files o) :
    ∃ here, Ready d here files e.base := by
  have haccepts : ∀ r ∈ [e.rule t], ∀ o ∈ identity t.settings r, d.Accepts files o :=
    List.forall_mem_singleton.2 (h t ht)
  obtain ⟨here, hready⟩ := ready_of_accepts haccepts List.mem_cons_self
  exact ⟨here, hready (e.rule t) List.mem_cons_self⟩

/-- **Switching an edge between transports leaves no stale manifest.** Where the manifests of the
edge can be written, each of its calls has one result: a native one never fails, and one of the copy
tool succeeds just if its job can be built. At the end

* the job of the last call that succeeded is there, if no native call came after it;
* there is no job, if the last call that did not fail is a native one;
* all is as it was, if every call failed.

A failed call changes nothing, and no call changes an entry of the tree that is not a manifest of
the edge. -/
theorem history_settles (e : Edge) (d : ManifestDirectory) (turns : List (Turn ω)) (files : Files)
    (haccepts : ∀ t ∈ turns, ∀ o ∈ identity t.settings (e.rule t), d.Accepts files o) :
    ∃ log final, e.history d turns files = (log, final)
      ∧ log.map Prod.fst = turns
      ∧ (∀ x ∈ log,
          (x.2.isFailed = true ↔
            x.1.transport = .copyTool ∧ ∃ reason, e.prepared x.1 = .error reason)
          ∧ (x.2.status = .succeeded ↔ x.1.transport = .copyTool ∧ ∃ job, e.prepared x.1 = .ok job))
      ∧ (∀ front t r back, log = front ++ (t, r) :: back → r.status = .succeeded →
          (∀ x ∈ back, x.1.transport = .copyTool ∧ x.2.status ≠ .succeeded) →
          ∃ job, e.prepared t = .ok job ∧ ∀ o ∈ job.objects, d.Holds final o)
      ∧ (∀ front t r back, log = front ++ (t, r) :: back → t.transport = .native →
          (∀ x ∈ back, x.2.isFailed = true) →
          ∀ o ∈ identity t.settings (e.rule t), d.Lacks final o)
      ∧ ((∀ x ∈ log, x.2.isFailed = true) → final = files)
      ∧ (∀ before t after, turns = before ++ t :: after →
          ∃ r files', e.call d t (e.history d before files).2 = ([r], files')
            ∧ (r.isFailed = true → files' = (e.history d before files).2)
            ∧ ∀ k, (∀ o ∈ identity t.settings (e.rule t), ¬ d.Keeps files o k) →
                files'.entries.get? k = (e.history d before files).2.entries.get? k)
      ∧ ∀ k, (∀ t ∈ turns, ∀ o ∈ identity t.settings (e.rule t), ¬ d.Keeps files o k) →
          final.entries.get? k = files.entries.get? k := by
  rcases eq_or_ne turns [] with rfl | hne
  · exact ⟨[], files, by simp [history]⟩
  · obtain ⟨first, hfirst⟩ := List.exists_mem_of_ne_nil turns hne
    obtain ⟨here, hready⟩ := ready_of_turns hfirst haccepts
    have hcourse := course_history turns hready
    refine ⟨_, _, rfl, hcourse.calls, fun x hx => ⟨?_, ?_⟩, ?_, ?_, fun hall => ?_, ?_, ?_⟩
    · exact (hcourse.isFailed_iff hx).trans deedOf_eq_none_iff
    · rw [hcourse.succeeded_iff hx]
      simp only [deedOf_eq_written_iff, exists_and_left]
    · exact fun front t r back hlog => hcourse.holds_of_succeeded hlog
    · exact fun front t r back hlog => hcourse.lacks_of_native hlog
    · exact hcourse.unchanged_of_failed hall
    · rintro before t after rfl
      have hbefore := course_history before hready
      obtain ⟨r, files', hcall, hturn⟩ := exists_course_call hbefore.ready t
      refine ⟨r, files', hcall, fun hfailed => ?_, fun k hk => ?_⟩
      · exact hturn.unchanged_of_failed (List.forall_mem_singleton.2 hfailed)
      · obtain ⟨hmap, hjob⟩ := ne_of_not_keeps t.settings (e.rule t) hready hk
        exact hturn.rest k hmap hjob
    · rintro k hk
      obtain ⟨hmap, hjob⟩ := ne_of_not_keeps first.settings (e.rule first) hready
        (hk first hfirst)
      exact hcourse.rest k hmap hjob

/-! ### A run

A scheduled project is copied by the tool, then by the registries; in between nothing is known of
the registries. -/

/-- The edge of a scheduled project. -/
def switchedEdge : Edge := ⟨"os", "hub", "eu-edge"⟩

/-- The copy tool is to carry the rule out. -/
def copyTurn : Turn World :=
  ⟨.push, ⟨"cron 0 3 * * *"⟩, .copyTool, .standard, (World.ofMemories clashBackends).served,
    World.ofMemories clashBackends⟩

/-- It is to do so without registries. -/
def lostTurn : Turn World := { copyTurn with backends := [] }

/-- The registries are to carry the rule out. -/
def nativeTurn : Turn World := { copyTurn with transport := .native }

theorem switched_accepts : ∀ t ∈ [copyTurn, lostTurn, nativeTurn],
    ∀ o ∈ identity t.settings (switchedEdge.rule t), clashDirectory.Accepts clashFiles o := by
  have hall : ∀ t ∈ [copyTurn, lostTurn, nativeTurn],
      ∀ o ∈ identity t.settings (switchedEdge.rule t),
        (clashDirectory.write o clashFiles).toOption.isSome = true := by
    decide +kernel
  exact fun t ht o ho => ManifestDirectory.accepts_of_isSome (hall t ht o ho)

/-- The log of two calls has a result of each. -/
theorem exists_log {a b : Turn ω} (h : log.map Prod.fst = [a, b]) :
    ∃ r r', log = [(a, r), (b, r')] := by
  obtain ⟨⟨_, r⟩, back, rfl, rfl, hback⟩ := List.map_eq_cons_iff.1 h
  obtain ⟨⟨_, r'⟩, rest, rfl, rfl, hrest⟩ := List.map_eq_cons_iff.1 hback
  obtain rfl := List.map_eq_nil_iff.1 hrest
  exact ⟨r, r', rfl⟩

theorem prepared_copyTurn : ∃ job, switchedEdge.prepared copyTurn = .ok job := by
  have hbuilt : (switchedEdge.prepared copyTurn).toOption.isSome = true := by decide +kernel
  cases hprepared : switchedEdge.prepared copyTurn with
  | ok job => exact ⟨job, rfl⟩
  | error reason => rw [hprepared] at hbuilt; cases hbuilt

theorem history_settles_switched :
    (∃ job, switchedEdge.prepared copyTurn = .ok job ∧ ∀ o ∈ job.objects, clashDirectory.Holds
        (switchedEdge.history clashDirectory [copyTurn, lostTurn] clashFiles).2 o)
      ∧ ∀ o ∈ identity .standard (switchedEdge.rule nativeTurn), clashDirectory.Lacks
        (switchedEdge.history clashDirectory [copyTurn, nativeTurn] clashFiles).2 o := by
  constructor
  · obtain ⟨log, final, hrun, hcalls, hsaid, hwritten, -⟩ := history_settles switchedEdge
      clashDirectory [copyTurn, lostTurn] clashFiles fun t ht => switched_accepts t (by grind)
    obtain ⟨r, r', rfl⟩ := exists_log hcalls
    rw [hrun]
    refine hwritten [] copyTurn r [(lostTurn, r')] rfl ?_ (List.forall_mem_singleton.2 ⟨rfl, ?_⟩)
    · exact (hsaid (copyTurn, r) List.mem_cons_self).2.2 ⟨rfl, prepared_copyTurn⟩
    · intro hsucceeded
      obtain ⟨-, job, hjob⟩ := (hsaid (lostTurn, r') (by simp)).2.1 hsucceeded
      cases hjob
  · obtain ⟨log, final, hrun, hcalls, -, -, hremoved, -⟩ := history_settles switchedEdge
      clashDirectory [copyTurn, nativeTurn] clashFiles fun t ht => switched_accepts t (by grind)
    obtain ⟨r, r', rfl⟩ := exists_log hcalls
    rw [hrun]
    exact hremoved [(copyTurn, r)] nativeTurn r' [] rfl rfl fun x hx => nomatch hx

end Edge

end CopyJob

end RegistryFleet
