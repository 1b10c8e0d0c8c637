import RegistryFleet.Proofs.Text.Mark
import RegistryFleet.Proofs.Topology.Trigger
import RegistryFleet.Proofs.Web.Connection
import RegistryFleet.Proofs.Web.Host
import RegistryFleet.Proofs.Web.Segment

/-!
# Proofs/Web/Authority — whether image references name the host that requests go to

The host of a registry is cut out of the text of its endpoint, between the first `://` and the next
slash, while requests go where the endpoint leads when it is read as an address. The text between
the slashes is then taken apart further: user information is put aside, a query or a fragment ends
it, backslashes count as slashes, blanks are dropped, and the host is written anew.

* `Url.siteText` — the host that requests go to, with the port that the address spells.
* `Url.site_of_clear` — a text without marks behind the scheme is read as host and port.
* `Url.PlainSite` — a text that is the host and the port of the address it stands in.
* `Url.alike_siteText_iff` — between two slashes and the next, that is just the plain texts.
* `Url.not_alike_before` — a text with its scheme is never one.
* `Connection.host_addressed_iff` — when image references name the host that requests go to.
-/

namespace RegistryFleet

open Web (Connection Request Url)

namespace Web.Url

open Text (Alike)

variable {s : String} {u : Url} {cs : List Char} {c : Char}

/-! ## The host and the port of an address -/

/-- **The authority** of an address of the web: what stands between the slashes behind the scheme
and the next one, or the end of the path. -/
def authority (cs : List Char) : List Char :=
  ((parts cs).1.dropWhile (isSlash true)).takeWhile fun c => !isSlash true c

/-- **The host and the port as an address of the web spells them.** -/
def site? (s : String) : Option (List Char × Option (List Char)) :=
  (scheme? (clean s)).map fun p => splitPort false (splitUserinfo (authority p.2)).2.1

/-- The port that an address spells, if it spells one. -/
def spelledPort? (s : String) : Option (List Char) :=
  ((site? s).bind (·.2)).filter fun port => !port.isEmpty

/-- A port behind its colon, if there is one. -/
def portText (port : Option (List Char)) : List Char := port.elim [] (':' :: ·)

/-- **Where the requests of an address go**: its host, and behind a colon the port that it
spells. -/
def siteText (s : String) (u : Url) : List Char :=
  (u.host.getD "").toList ++ portText (spelledPort? s)

theorem scheme_of_withHost {scheme : String} {query fragment : Option String}
    (h : withHost scheme cs query fragment = .ok u) : u.scheme = scheme := by
  unfold withHost at h
  simp only [bind, Except.bind, pure, Except.pure] at h
  split at h
  · cases h
  split at h
  all_goals
    split at h
    · cases h
    split at h
    · cases h
    obtain rfl := Except.ok.inj h
    rfl

theorem scheme_of_ofFile {query fragment : Option String} (h : ofFile cs query fragment = .ok u) :
    u.scheme = "file" := by
  unfold ofFile at h
  simp only [bind, Except.bind, pure, Except.pure] at h
  generalize (if cs.head?.any (isSlash true) = true then cs.drop 1 else cs) = behind at h
  split at h
  · split at h
    · exact (congrArg scheme (Except.ok.inj h)).symm
    · split at h
      · cases h
      · exact (congrArg scheme (Except.ok.inj h)).symm
  · exact (congrArg scheme (Except.ok.inj h)).symm

/-- The host and the port of an address are read from what stands for them. -/
theorem of_withHost {scheme : String} {query fragment : Option String}
    (hspecial : isSpecial scheme = true) (h : withHost scheme cs query fragment = .ok u) :
    ∃ text,
      Host.ofText (splitPort false (splitUserinfo (cs.takeWhile fun c => !isSlash true c)).2.1).1
          = .ok text
        ∧ u.host = some text
        ∧ portOf scheme
            (splitPort false (splitUserinfo (cs.takeWhile fun c => !isSlash true c)).2.1).2
          = .ok u.port := by
  unfold withHost at h
  simp only [hspecial, bind, Except.bind, pure, Except.pure, if_true] at h
  split at h
  · cases h
  · split at h
    · cases h
    · next text htext =>
      split at h
      · cases h
      · next port hport =>
        obtain rfl := Except.ok.inj h
        exact ⟨text, htext, rfl, hport⟩

/-- **What is read of an address of the web.** -/
theorem of_parse_isWeb (h : parse s = .ok u) (hweb : u.isWeb = true) :
    ∃ host port text, site? s = some (host, port) ∧ Host.ofText host = .ok text
      ∧ u.host = some text ∧ portOf u.scheme port = .ok u.port := by
  unfold parse at h
  unfold site?
  split at h
  · cases h
  · next scheme cs hscheme =>
    simp only at h
    split at h
    · rw [isWeb, scheme_of_ofFile h] at hweb
      cases hweb
    · split at h
      · next hspecial =>
        obtain ⟨text, htext, hhost, hport⟩ := of_withHost hspecial h
        rw [scheme_of_withHost h]
        exact ⟨_, _, text, by rw [hscheme]; rfl, htext, hhost, hport⟩
      · next hplain =>
        have hscheme : u.scheme = scheme := by
          split at h
          · exact scheme_of_withHost h
          · exact (congrArg Url.scheme (Except.ok.inj h)).symm
          · exact (congrArg Url.scheme (Except.ok.inj h)).symm
        exact absurd (hscheme ▸ isSpecial_of_isWeb hweb) hplain

/-! ## Texts without marks -/

/-- Does the character end an authority, divide it, or get lost in an address? -/
def isMark (c : Char) : Bool := isEdge c || ['/', '\\', '?', '#', '@'].contains c

/-- A character of a scheme. -/
def isSchemeChar (c : Char) : Bool := c.isAlphanum || c == '+' || c == '-' || c == '.'

/-- **A text without marks.** -/
def Clear (cs : List Char) : Prop := ∀ c ∈ cs, isMark c = false

/-- **What ends an authority**: the end of the text, or a slash. -/
inductive Ended : List Char → Prop
  | nil : Ended []
  | slash (rest : List Char) : Ended ('/' :: rest)

variable {front back slashes tail : List Char}

/-- What is not trimmed from the ends is not lost inside either. -/
theorem isKept_of_isEdge (h : isEdge c = false) : isKept c = true := by
  have hne : ∀ d, isEdge d = true → c ≠ d := by
    rintro d hd rfl
    rw [hd] at h
    cases h
  simp [isKept, hne '\t' rfl, hne '\n' rfl, hne '\r' rfl]

/-- What is known of a character that is no mark. -/
structure Unmarked (c : Char) : Prop where
  edge : isEdge c = false
  kept : isKept c = true
  slash : isSlash true c = false
  query : c ≠ '?'
  fragment : c ≠ '#'
  user : c ≠ '@'

theorem Clear.unmarked (h : Clear cs) (hc : c ∈ cs) : Unmarked c := by
  have hmark : isMark c = false := h c hc
  simp only [isMark, List.contains_eq_mem, Bool.or_eq_false_iff, decide_eq_false_iff_not,
    List.mem_cons, List.not_mem_nil, or_false, not_or] at hmark
  obtain ⟨hedge, hslash, hback, hquery, hfragment, huser⟩ := hmark
  exact ⟨hedge, isKept_of_isEdge hedge, by simp [isSlash, hslash, hback], hquery, hfragment, huser⟩

theorem Ended.trimmed (h : Ended tail) :
    Ended ((Text.dropEndWhile isEdge tail).filter isKept) := by
  cases h with
  | nil => exact .nil
  | slash rest =>
    have hrest := dropEndWhile_append (p := isEdge) (c := '/') rfl [] rest
    rw [List.nil_append, List.nil_append] at hrest
    rw [hrest]
    exact .slash _

theorem Ended.parts (h : Ended tail) : Ended (parts tail).1 := by
  cases h with
  | nil => exact .nil
  | slash rest =>
    have hplain : '#' ∉ ['/'] ∧ '?' ∉ ['/'] := by decide
    rw [← List.singleton_append, parts_append hplain.1 hplain.2]
    exact .slash _

theorem Ended.takeWhile_append (h : Ended tail) (hcs : Clear cs) :
    (cs ++ tail).takeWhile (fun c => !isSlash true c) = cs := by
  rw [List.takeWhile_append_of_pos fun c hc => by rw [(hcs.unmarked hc).slash]; rfl]
  cases h with
  | nil => exact List.append_nil cs
  | slash rest => rw [List.takeWhile_cons_of_neg (by decide), List.append_nil]

/-- What is not dropped is kept. -/
theorem mem_dropWhile {p : Char → Bool} {xs : List Char} (hc : c ∈ xs) (hp : p c = false) :
    c ∈ xs.dropWhile p := by
  rw [← List.takeWhile_append_dropWhile (p := p) (l := xs)] at hc
  refine (List.mem_append.1 hc).resolve_left fun htaken => ?_
  rw [List.mem_takeWhile_imp htaken] at hp
  cases hp

/-- What is dropped in front of a text is in front of a character that is kept. -/
theorem dropWhile_append_cons {p : Char → Bool} (hc : p c = false) (xs ys : List Char) :
    (xs ++ c :: ys).dropWhile p = xs.dropWhile p ++ c :: ys := by
  rw [List.dropWhile_append]
  split
  · next h =>
    rw [List.isEmpty_iff.1 h, List.dropWhile_cons_of_neg (by simp [hc])]
    rfl
  · rfl

/-- **An address is trimmed around its first colon.** -/
theorem clean_of_colon (hs : s.toList = front ++ ':' :: back) :
    clean s = (front.dropWhile isEdge).filter isKept
      ++ ':' :: (Text.dropEndWhile isEdge back).filter isKept := by
  rw [clean_eq, hs, dropWhile_append_cons rfl, dropEndWhile_append rfl, List.filter_append,
    List.filter_cons_of_pos rfl]

/-- A text without marks keeps its place behind slashes when an address is trimmed. -/
theorem trimmed_of_clear (hslashes : ∀ c ∈ slashes, c = '/') (hcs : Clear cs) (hne : cs ≠ [])
    (htail : Ended tail) : ∃ tail', Ended tail'
      ∧ (Text.dropEndWhile isEdge (slashes ++ cs ++ tail)).filter isKept
        = slashes ++ cs ++ tail' := by
  refine ⟨_, htail.trimmed, ?_⟩
  have hkept : ∀ c ∈ slashes ++ cs, isKept c = true := fun c hc => by
    rcases List.mem_append.1 hc with hc | hc
    · rw [hslashes c hc]
      rfl
    · exact (hcs.unmarked hc).kept
  have hend : Text.dropEndWhile isEdge (slashes ++ cs ++ tail)
      = slashes ++ cs ++ Text.dropEndWhile isEdge tail := by
    obtain ⟨cs, last, rfl⟩ := (List.eq_nil_or_concat cs).resolve_left hne
    have hlast : isEdge last = false := (hcs.unmarked (by simp)).edge
    have hsplit : ∀ back, slashes ++ cs.concat last ++ back = slashes ++ cs ++ last :: back := by
      simp
    rw [hsplit, hsplit, dropEndWhile_append hlast]
  rw [hend, List.filter_append, List.filter_eq_self.2 hkept]

/-- **The authority is a text without marks** behind slashes. -/
theorem authority_of_clear (hslashes : ∀ c ∈ slashes, c = '/') (hcs : Clear cs) (hne : cs ≠ [])
    (htail : Ended tail) : authority (slashes ++ cs ++ tail) = cs := by
  have hnot : ∀ d, d = '#' ∨ d = '?' → d ∉ slashes ++ cs := by
    intro d hd hmem
    rcases List.mem_append.1 hmem with hmem | hmem
    · rcases hd with rfl | rfl <;> exact absurd (hslashes _ hmem) (by decide)
    · exact hd.elim (hcs.unmarked hmem).fragment (hcs.unmarked hmem).query
  have hdrop : ∀ back, (slashes ++ cs ++ back).dropWhile (isSlash true) = cs ++ back := by
    intro back
    obtain ⟨c, cs, rfl⟩ := List.exists_cons_of_ne_nil hne
    have hc : isSlash true c = false := (hcs.unmarked List.mem_cons_self).slash
    rw [List.append_assoc, List.dropWhile_append_of_pos fun d hd => by rw [hslashes d hd]; rfl,
      List.cons_append, List.dropWhile_cons_of_neg (by simp [hc])]
  rw [authority, parts_append (hnot _ (.inl rfl)) (hnot _ (.inr rfl)), hdrop,
    htail.parts.takeWhile_append hcs]

theorem splitUserinfo_of_clear (hcs : Clear cs) : (splitUserinfo cs).2.1 = cs := by
  have hnone : '@' ∉ cs := fun hmem => (hcs.unmarked hmem).user rfl
  rw [splitUserinfo, List.splitOn_eq_singleton hnone]
  rfl

/-- **What is read behind the first colon**, and what stands in front of it. -/
theorem of_scheme? {p : String × List Char} (hs : s.toList = front ++ ':' :: back)
    (hfront : ':' ∉ front) (h : scheme? (clean s) = some p) :
    p.2 = (Text.dropEndWhile isEdge back).filter isKept
      ∧ ∀ c ∈ front, isEdge c = false → isSchemeChar c = true := by
  have hcolon : ':' ∉ (front.dropWhile isEdge).filter isKept := fun hmem =>
    hfront ((List.dropWhile_sublist _).subset (List.mem_filter.1 hmem).1)
  rw [clean_of_colon hs, scheme?, Text.cutAt?_append _ hcolon] at h
  simp only [Option.bind_eq_bind, Option.bind_some] at h
  split at h
  · next hvalid =>
    obtain rfl := Option.some.inj h
    refine ⟨rfl, fun c hc hedge => ?_⟩
    have hmem : c ∈ (front.dropWhile isEdge).filter isKept :=
      List.mem_filter.2 ⟨mem_dropWhile hc hedge, isKept_of_isEdge hedge⟩
    exact List.all_eq_true.1 (Bool.and_eq_true_iff.1 hvalid).2 c hmem
  · cases h

/-- **Host and port stand in a text without marks** behind the scheme and slashes. -/
theorem site_of_clear {site : List Char × Option (List Char)}
    (hs : s.toList = front ++ ':' :: (slashes ++ cs ++ tail)) (hfront : ':' ∉ front)
    (hslashes : ∀ c ∈ slashes, c = '/') (hcs : Clear cs) (hne : cs ≠ []) (htail : Ended tail)
    (hsite : site? s = some site) : site = splitPort false cs := by
  obtain ⟨p, hscheme, rfl⟩ := Option.map_eq_some_iff.1 hsite
  obtain ⟨tail', htail', htrimmed⟩ := trimmed_of_clear hslashes hcs hne htail
  rw [(of_scheme? hs hfront hscheme).1, htrimmed, authority_of_clear hslashes hcs hne htail',
    splitUserinfo_of_clear hcs]

/-! ## Hosts and ports as texts -/

/-- A text is its host, and behind a colon what is taken for a port. -/
theorem eq_append_of_splitPort : ∀ (inBrackets : Bool) (cs : List Char),
    cs = (splitPort inBrackets cs).1 ++ portText (splitPort inBrackets cs).2
  | _, [] => rfl
  | inBrackets, c :: cs => by
      rw [splitPort]
      split
      · next h =>
        have hc : c = ':' := eq_of_beq (Bool.and_eq_true_iff.1 h).1
        rw [hc]
        rfl
      · exact congrArg (c :: ·) (eq_append_of_splitPort _ cs)

/-- A host without colons and brackets is told from its port. -/
theorem splitPort_append (port : Option (List Char)) : ∀ {host : List Char},
    (∀ c ∈ host, c ≠ ':' ∧ c ≠ '[') → splitPort false (host ++ portText port) = (host, port)
  | [], _ => by cases port <;> rfl
  | c :: host, h => by
      obtain ⟨⟨hcolon, hbracket⟩, hhost⟩ := List.forall_mem_cons.1 h
      rw [List.cons_append, splitPort, beq_false_of_ne hcolon, beq_false_of_ne hbracket,
        Bool.false_and, if_neg Bool.false_ne_true, if_neg Bool.false_ne_true, ite_self]
      simp only [splitPort_append port hhost]

/-- Marks are no letters. -/
theorem isAlpha_of_isMark (h : isMark c = true) : c.isAlpha = false := by
  rcases Bool.or_eq_true_iff.1 h with hedge | hmark
  · have hlow : c.toNat ≤ 0x20 := of_decide_eq_true hedge
    have hupper : c.isUpper = false := Bool.eq_false_iff.2 fun h => by
      have hcapital : 65 ≤ c.toNat := (Host.toNat_of_isUpper h).1
      omega
    have hlower : c.isLower = false := Bool.eq_false_iff.2 fun h => by
      have hsmall : 97 ≤ c.toNat := by
        simpa [UInt32.le_iff_toNat_le] using (Bool.and_eq_true_iff.1 h).1
      omega
    rw [Char.isAlpha, hupper, hlower]
    rfl
  · simp only [List.contains_eq_mem, List.mem_cons, List.not_mem_nil, or_false,
      decide_eq_true_eq] at hmark
    rcases hmark with rfl | rfl | rfl | rfl | rfl <;> rfl

/-- A text that is alike to one without marks has none. -/
theorem Clear.of_alike {ds : List Char} (h : Alike cs ds) (hds : Clear ds) : Clear cs := by
  intro c hc
  by_contra hmark
  have hmark : isMark c = true := (Bool.not_eq_false _).mp hmark
  rw [hds c (h.mem hc (isAlpha_of_isMark hmark))] at hmark
  cases hmark

/-- What a name may have is no mark and no bracket or colon. -/
theorem of_allowed (h : Host.Allowed c) : isMark c = false ∧ c ≠ ':' ∧ c ≠ '[' := by
  simp only [Host.Allowed, Host.isDenied, Bool.or_eq_false_iff, decide_eq_false_iff_not,
    List.contains_eq_mem] at h
  obtain ⟨⟨hedge, -⟩, hmarks⟩ := h
  have hne : ∀ d ∈ "%/:<>?@[\\]^|#".toList, c ≠ d := fun d hd he => hmarks (he ▸ hd)
  refine ⟨?_, hne ':' (by decide), hne '[' (by decide)⟩
  simp [isMark, isEdge, hedge, hne '/' (by decide), hne '\\' (by decide), hne '?' (by decide),
    hne '#' (by decide), hne '@' (by decide)]

theorem clear_of_allowed (h : ∀ c ∈ cs, Host.Allowed c) : Clear cs := fun c hc =>
  (of_allowed (h c hc)).1

theorem clear_of_digits (h : ∀ c ∈ cs, c.isDigit = true) : Clear cs :=
  clear_of_allowed fun c hc => Host.allowed_of_isDigit (h c hc)

/-- **No host has a mark in it.** -/
theorem clear_of_shape (h : Host.Shape cs) : Clear cs := by
  cases h with
  | bracketed hinner =>
    refine List.forall_mem_cons.2 ⟨rfl, List.forall_mem_append.2
      ⟨fun c hc => ?_, List.forall_mem_singleton.2 rfl⟩⟩
    rcases hinner c hc with rfl | ⟨d, hd, rfl⟩
    · rfl
    · exact (by decide : ∀ d < 16, isMark (Text.lowerDigit d) = false) d hd
  | plain _ hall => exact clear_of_allowed hall

/-- **No host ends in a colon.** -/
theorem getLast?_of_shape (h : Host.Shape cs) : cs.getLast? ≠ some ':' := by
  cases h with
  | @bracketed inner _ =>
    rw [← List.cons_append, List.getLast?_concat]
    decide
  | plain _ hall => exact fun hlast => (of_allowed (hall _ (List.mem_of_getLast? hlast))).2.1 rfl

theorem ne_nil_of_shape (h : Host.Shape cs) : cs ≠ [] := by
  cases h with
  | bracketed _ => exact List.cons_ne_nil _ _
  | plain hne _ => exact hne

/-- A port that counts is written in digits. -/
theorem forall_of_portOf {scheme : String} {port : List Char} {n : Option Nat}
    (h : portOf scheme (some port) = .ok n) : ∀ c ∈ port, c.isDigit = true := by
  rw [portOf] at h
  split at h
  · cases h
  · next hall => exact List.all_eq_true.1 (by simpa using hall)

/-- A port without digits is as good as none. -/
theorem portOf_filter {scheme : String} : ∀ port : Option (List Char),
    portOf scheme (port.filter fun port => !port.isEmpty) = portOf scheme port
  | none => rfl
  | some [] => rfl
  | some (_ :: _) => rfl

/-! ## Whether a text is the host and the port -/

/-- **A text that is the host and the port** of the address it stands in: it has no marks, its host
is kept, and its colon is in front of a port. -/
structure PlainSite (cs : List Char) : Prop where
  clear : Clear cs
  kept : Host.Kept (splitPort false cs).1
  port : (splitPort false cs).2 ≠ some []

/-- A text ends at its first slash. -/
theorem exists_ended (cs : List Char) : ∃ tail, Ended tail ∧ cs = Text.before '/' cs ++ tail := by
  cases hcut : Text.cutAt? '/' cs with
  | none =>
    have hwhole : Text.before '/' cs = cs :=
      Text.before_of_not_mem (Text.cutAt?_eq_none_iff.1 hcut)
    exact ⟨[], .nil, by rw [hwhole, List.append_nil]⟩
  | some p =>
    obtain ⟨hcs, hfront⟩ := Text.eq_append_of_cutAt? hcut
    refine ⟨'/' :: p.2, .slash _, ?_⟩
    conv_rhs => rw [hcs, Text.before_append hfront]
    exact hcs

/-- A host is kept just if it is written alike. -/
theorem kept_iff {host : List Char} {text : String} (h : Host.ofText host = .ok text) :
    Host.Kept host ↔ Alike host text.toList := by
  refine ⟨fun ⟨text', h', halike⟩ => ?_, fun halike => ⟨text, h, halike.symm⟩⟩
  obtain rfl := Except.ok.inj (h.symm.trans h')
  exact halike.symm

theorem PlainSite.ne_nil (h : PlainSite cs) : cs ≠ [] := by
  rintro rfl
  obtain ⟨text, htext, halike⟩ := h.kept
  exact ne_nil_of_shape (Host.shape_of_ofText htext) (List.map_eq_nil_iff.1 halike)

/-- With a port behind them, two hosts are alike just as without, and no port is left out. -/
theorem alike_portText_iff {host text : List Char} (htext : Host.Shape text) :
    ∀ {port : Option (List Char)},
      Alike (host ++ portText port) (text ++ portText (port.filter fun port => !port.isEmpty))
        ↔ Alike host text ∧ port ≠ some []
  | none => by simp [portText]
  | some [] => by
      refine ⟨fun h => ?_, fun h => absurd rfl h.2⟩
      have hlast : (text.map Char.toLower).getLast? = some ':' := by
        have h : host.map Char.toLower ++ [':'] = text.map Char.toLower := by
          simpa [Alike, portText, Option.filter] using h
        rw [← h, List.getLast?_concat]
      rw [List.getLast?_map] at hlast
      obtain ⟨c, hc, he⟩ := Option.map_eq_some_iff.1 hlast
      have hcolon : c = ':' := Text.eq_of_toLower (d := ':') he rfl
      exact absurd (hcolon ▸ hc) (getLast?_of_shape htext)
  | some (d :: ds) => by simp [Alike, portText, Option.filter]

/-- What is read of the host and the port, and what is written of them. -/
theorem of_parse_site (h : parse s = .ok u) (hweb : u.isWeb = true) :
    ∃ site text, site? s = some site ∧ Host.ofText site.1 = .ok text ∧ u.host = some text
      ∧ portOf u.scheme site.2 = .ok u.port
      ∧ siteText s u = text.toList ++ portText (site.2.filter fun port => !port.isEmpty) := by
  obtain ⟨host, port, text, hsite, htext, hhost, hport⟩ := of_parse_isWeb h hweb
  refine ⟨(host, port), text, hsite, htext, hhost, hport, ?_⟩
  rw [siteText, hhost, spelledPort?, hsite]
  rfl

/-- **Where requests go** has no marks in it. -/
theorem clear_siteText (h : parse s = .ok u) (hweb : u.isWeb = true) : Clear (siteText s u) := by
  obtain ⟨⟨host, port⟩, text, -, htext, -, hport, hsite⟩ := of_parse_site h hweb
  rw [hsite]
  refine List.forall_mem_append.2 ⟨clear_of_shape (Host.shape_of_ofText htext), ?_⟩
  rcases port with _ | _ | ⟨d, ds⟩
  · exact List.forall_mem_nil _
  · exact List.forall_mem_nil _
  · exact List.forall_mem_cons.2 ⟨rfl, clear_of_digits (forall_of_portOf hport)⟩

theorem siteText_ne_nil (h : parse s = .ok u) (hweb : u.isWeb = true) : siteText s u ≠ [] := by
  obtain ⟨site, text, -, htext, -, -, hwritten⟩ := of_parse_site h hweb
  rw [hwritten]
  exact List.append_ne_nil_of_left_ne_nil (ne_nil_of_shape (Host.shape_of_ofText htext)) _

/-- A text without marks behind two slashes is where requests go just if it is plain. -/
theorem alike_siteText_iff_of_clear (h : parse s = .ok u) (hweb : u.isWeb = true)
    (hs : s.toList = front ++ ':' :: '/' :: '/' :: (cs ++ tail)) (hfront : ':' ∉ front)
    (htail : Ended tail) (hcs : Clear cs) (hne : cs ≠ []) :
    Alike cs (siteText s u) ↔ PlainSite cs := by
  obtain ⟨site, text, hsite, htext, -, -, hwritten⟩ := of_parse_site h hweb
  have hslashes : ∀ c ∈ ['/', '/'], c = '/' := by simp
  obtain rfl : site = splitPort false cs :=
    site_of_clear (by rw [hs, List.append_assoc]; rfl) hfront hslashes hcs hne htail hsite
  rw [hwritten]
  nth_rewrite 1 [eq_append_of_splitPort false cs]
  rw [alike_portText_iff (Host.shape_of_ofText htext), ← kept_iff htext]
  exact ⟨fun ⟨hkept, hport⟩ => ⟨hcs, hkept, hport⟩, fun hplain => ⟨hplain.kept, hplain.port⟩⟩

/-- **Behind the scheme and two slashes**, a text up to the next slash is where requests go just if
it is plain. -/
theorem alike_siteText_iff (h : parse s = .ok u) (hweb : u.isWeb = true)
    (hs : s.toList = front ++ ':' :: '/' :: '/' :: back) (hfront : ':' ∉ front) :
    Alike (Text.before '/' back) (siteText s u) ↔ PlainSite (Text.before '/' back) := by
  obtain ⟨tail, htail, hback⟩ := exists_ended back
  have hplace : s.toList = front ++ ':' :: '/' :: '/' :: (Text.before '/' back ++ tail) := by
    rw [hs, ← hback]
  have hiff := alike_siteText_iff_of_clear h hweb hplace hfront htail
  refine ⟨fun halike => ?_, fun hplain => (hiff hplain.clear hplain.ne_nil).2 hplain⟩
  refine (hiff (.of_alike halike (clear_siteText h hweb)) fun hnil => ?_).1 halike
  rw [hnil] at halike
  exact siteText_ne_nil h hweb (List.map_eq_nil_iff.1 halike.symm)

/-! ## Texts with their scheme -/

/-- An address has a colon. -/
theorem exists_colon {site : List Char × Option (List Char)} (h : site? s = some site) :
    ∃ front back, s.toList = front ++ ':' :: back ∧ ':' ∉ front := by
  obtain ⟨p, hscheme, -⟩ := Option.map_eq_some_iff.1 h
  have hmem : ':' ∈ clean s := by
    by_contra hnone
    rw [scheme?, Text.cutAt?_eq_none_iff.2 hnone] at hscheme
    cases hscheme
  obtain ⟨q, hcut⟩ := Option.ne_none_iff_exists'.1
    (mt Text.cutAt?_eq_none_iff.1 (not_not_intro (mem_clean hmem)))
  obtain ⟨hs, hfront⟩ := Text.eq_append_of_cutAt? hcut
  exact ⟨q.1, q.2, hs, hfront⟩

/-- A scheme has no slash and no bracket. -/
theorem before_of_site? {site : List Char × Option (List Char)}
    (hs : s.toList = front ++ ':' :: back) (hfront : ':' ∉ front) (h : site? s = some site) :
    Text.before '/' s.toList = front ++ ':' :: Text.before '/' back ∧ '[' ∉ front := by
  obtain ⟨p, hscheme, -⟩ := Option.map_eq_some_iff.1 h
  have hnot : ∀ d, isEdge d = false → isSchemeChar d = false → d ∉ front := by
    intro d hedge hchar hmem
    rw [(of_scheme? hs hfront hscheme).2 d hmem hedge] at hchar
    cases hchar
  have hall : ∀ c ∈ front, (c != '/') = true := fun c hc =>
    bne_iff_ne.2 fun he => hnot '/' rfl rfl (he ▸ hc)
  refine ⟨?_, hnot '[' rfl rfl⟩
  rw [hs, Text.before, List.takeWhile_append_of_pos hall, List.takeWhile_cons_of_pos (by decide)]
  rfl

/-- A host behind a scheme has no colon: it is no number between brackets. -/
theorem not_mem_colon {host xs ys : List Char} (hshape : Host.Shape host) (hfront : '[' ∉ front)
    (h : Alike (front ++ ':' :: xs) (host ++ ys)) : ':' ∉ host := by
  cases hshape with
  | bracketed _ =>
    refine absurd ?_ hfront
    cases front with
    | nil => exact absurd (List.cons.inj h).1 (by decide)
    | cons f front =>
      have hf : f = '[' := Text.eq_of_toLower (List.cons.inj h).1 rfl
      rw [hf]
      exact List.mem_cons_self
  | plain _ hall => exact fun hmem => (of_allowed (hall _ hmem)).2.1 rfl

/-- Digits are read as a host, and no port behind it. -/
theorem splitPort_of_alike_digits {digits : List Char} (h : Alike cs digits)
    (hdigits : ∀ c ∈ digits, c.isDigit = true) : splitPort false cs = (cs, none) := by
  have hnot : ∀ d : Char, d.isAlpha = false → d.isDigit = false → d ∉ cs := by
    intro d hletter hdigit hmem
    rw [hdigits d (h.mem hmem hletter)] at hdigit
    cases hdigit
  have hplain : ∀ c ∈ cs, c ≠ ':' ∧ c ≠ '[' := fun c hc =>
    ⟨fun he => hnot ':' rfl rfl (he ▸ hc), fun he => hnot '[' rfl rfl (he ▸ hc)⟩
  have hread := splitPort_append none hplain
  rwa [portText, Option.elim_none, List.append_nil] at hread

/-- **A text with its scheme** is not where requests go: what would have to be the port is read as
the host. -/
theorem not_alike_before (h : parse s = .ok u) (hweb : u.isWeb = true) :
    ¬ Alike (Text.before '/' s.toList) (siteText s u) := by
  intro halike
  obtain ⟨⟨host, port⟩, text, hsite, htext, -, hport, hwritten⟩ := of_parse_site h hweb
  obtain ⟨front, back, hs, hfront⟩ := exists_colon hsite
  obtain ⟨tail, htail, hback⟩ := exists_ended back
  obtain ⟨hbefore, hbracket⟩ := before_of_site? hs hfront hsite
  rw [hbefore, hwritten] at halike
  have hcolon : ':' ∉ text.toList := not_mem_colon (Host.shape_of_ofText htext) hbracket halike
  have hmem := halike.mem (c := ':') (by simp) rfl
  rcases port with _ | _ | ⟨d, ds⟩
  · exact (List.mem_append.1 hmem).elim hcolon List.not_mem_nil
  · exact (List.mem_append.1 hmem).elim hcolon List.not_mem_nil
  · have hdigits : ∀ c ∈ d :: ds, c.isDigit = true := forall_of_portOf hport
    have hsame : Alike (Text.before '/' back) (d :: ds) := halike.behind rfl hfront hcolon
    have hclear : Clear (Text.before '/' back) := .of_alike hsame (clear_of_digits hdigits)
    have hne : Text.before '/' back ≠ [] := fun hnil => by
      rw [hnil] at hsame
      cases hsame
    have hplace : s.toList = front ++ ':' :: ([] ++ Text.before '/' back ++ tail) := by
      rw [hs, List.nil_append, ← hback]
    have hread := site_of_clear hplace hfront (List.forall_mem_nil _) hclear hne htail hsite
    rw [splitPort_of_alike_digits hsame hdigits] at hread
    cases (Prod.mk.inj hread).2

/-! ## Usual endpoints -/

/-- **Where the host is ordinary** and the port is written in digits, the text is plain. -/
theorem plainSite_of_ordinary {host : List Char} {port : Option (List Char)}
    (hhost : Host.Ordinary host)
    (hport : ∀ digits ∈ port, digits ≠ [] ∧ ∀ d ∈ digits, d.isDigit = true) :
    PlainSite (host ++ portText port) := by
  have hread : splitPort false (host ++ portText port) = (host, port) :=
    splitPort_append port fun c hc => (of_allowed (Host.allowed_of_ordinary hhost c hc)).2
  refine ⟨List.forall_mem_append.2 ⟨clear_of_allowed (Host.allowed_of_ordinary hhost), ?_⟩, ?_, ?_⟩
  · rcases port with _ | digits
    · exact List.forall_mem_nil _
    · exact List.forall_mem_cons.2 ⟨rfl, clear_of_digits (hport digits rfl).2⟩
  · rw [hread]
    exact Host.kept_of_ordinary hhost
  · rw [hread]
    exact fun hnil => (hport [] hnil).1 rfl

/-- An endpoint whose scheme is followed by two slashes. -/
def Slashed (s : String) : Prop :=
  ∃ front back, s.toList = front ++ ':' :: '/' :: '/' :: back ∧ ':' ∉ front

end Web.Url

/-! ## The host of a registry -/

namespace Registry

variable {endpoint : String} {front back : List Char}

/-- The host of an endpoint, behind its scheme and two slashes. -/
theorem toList_hostOf (h : endpoint.toList = front ++ ':' :: '/' :: '/' :: back)
    (hfront : ':' ∉ front) : (hostOf endpoint).toList = Text.before '/' back := by
  have hcut : Text.cutAtMark? [':', '/', '/'] endpoint.toList = some (front, back) := by
    have hmark : endpoint.toList = front ++ [':', '/', '/'] ++ back := by
      rw [h, List.append_assoc]
      rfl
    rw [hmark]
    exact Text.cutAtMark?_append back hfront
  rw [hostOf, hcut, String.toList_ofList]

/-- The host of an endpoint that has no `://`. -/
theorem toList_hostOf_of_ne
    (h : ∀ front back, endpoint.toList ≠ front ++ ':' :: '/' :: '/' :: back) :
    (hostOf endpoint).toList = Text.before '/' endpoint.toList := by
  cases hcut : Text.cutAtMark? [':', '/', '/'] endpoint.toList with
  | none => rw [hostOf, hcut, String.toList_ofList]
  | some p =>
    refine absurd ?_ (h p.1 p.2)
    rw [Text.eq_append_of_cutAtMark? hcut, List.append_assoc]
    rfl

end Registry

namespace Web.Connection

open Text (Alike)
open Web.Url (PlainSite Slashed siteText portText)

variable {registry : Registry} {settings : ClientSettings} {c : Connection}

theorem of_ofRegistry (h : ofRegistry registry settings = .ok c) :
    Url.parse registry.endpoint = .ok c.base := by
  unfold ofRegistry at h
  split at h
  · cases h
  · next base hbase =>
    split at h
    · obtain rfl := Except.ok.inj h
      exact hbase
    · cases h

/-- **Every request** goes to the host and the port of the endpoint. -/
theorem site_of_request? {method : Method} {path : String} {parameters : List (String × String)}
    {body : Option Data} {request : Request}
    (h : c.request? method path parameters body = some request) :
    request.url.host = c.base.host ∧ request.url.port = c.base.port := by
  obtain ⟨hweb, url, hjoin, hurl⟩ := url_of_request? h
  obtain ⟨query, hquery⟩ := Url.exists_withParameters url.query parameters
  rw [hurl, hquery url rfl, Url.join_of_isWeb hweb hjoin]
  exact ⟨rfl, rfl⟩

/-- **When image references name the host that requests go to** — requests go to the host and the
port that the endpoint spells. Behind a scheme and two slashes, the host of the registry is these
two just if it is plain: no user information, query or fragment, backslash, further slash or blank
comes with it, its host is written as it was read, and its colon is in front of a port. So it is for
every name in ASCII and every number of four octets, with a port or without. Where the endpoint has
no `://`, the host of the registry is never that of its requests. Where its first `://` is not right
behind its first colon, as in `https:/h/x://h`, the host of the registry is a piece further back,
and names where requests go by coincidence alone; there as everywhere it does so only if it has no
marks. Names are read under the assumption made at `Host.name`. -/
theorem host_addressed_iff (hc : ofRegistry registry settings = .ok c)
    (hweb : c.base.isWeb = true) :
    (∀ method path parameters body request,
        c.request? method path parameters body = some request →
          request.url.host = c.base.host ∧ request.url.port = c.base.port)
      ∧ c.base.host.isSome = true
      ∧ Url.portOf c.base.scheme (Url.spelledPort? registry.endpoint) = .ok c.base.port
      ∧ (Slashed registry.endpoint →
          (Alike registry.host.toList (siteText registry.endpoint c.base)
              ↔ PlainSite registry.host.toList)
            ∧ ∀ host port, Host.Ordinary host →
              (∀ digits ∈ port, digits ≠ [] ∧ ∀ d ∈ digits, d.isDigit = true) →
              registry.host.toList = host ++ portText port →
                Alike registry.host.toList (siteText registry.endpoint c.base))
      ∧ ((∀ front back, registry.endpoint.toList ≠ front ++ ':' :: '/' :: '/' :: back) →
          ¬ Alike registry.host.toList (siteText registry.endpoint c.base))
      ∧ (Alike registry.host.toList (siteText registry.endpoint c.base) →
          Url.Clear registry.host.toList ∧ registry.host ≠ "") := by
  have hparse : Url.parse registry.endpoint = .ok c.base := of_ofRegistry hc
  obtain ⟨site, text, hsite, -, hhost, hport, -⟩ := Url.of_parse_site hparse hweb
  refine ⟨fun _ _ _ _ _ h => site_of_request? h, by rw [hhost]; rfl, ?_, ?_, fun hne => ?_,
    fun halike => ⟨.of_alike halike (Url.clear_siteText hparse hweb), fun hnil => ?_⟩⟩
  · rw [Url.spelledPort?, hsite]
    exact (Url.portOf_filter site.2).trans hport
  · rintro ⟨front, back, hs, hfront⟩
    have hiff := Url.alike_siteText_iff hparse hweb hs hfront
    rw [← Registry.toList_hostOf hs hfront] at hiff
    exact ⟨hiff, fun host port hordinary hdigits he =>
      hiff.2 (he ▸ Url.plainSite_of_ordinary hordinary hdigits)⟩
  · rw [Registry.host, Registry.toList_hostOf_of_ne hne]
    exact Url.not_alike_before hparse hweb
  · rw [hnil] at halike
    exact Url.siteText_ne_nil hparse hweb (List.map_eq_nil_iff.1 halike.symm)

/-- A connection to an endpoint with capital letters, a port and a path. -/
def portedHub : Connection where
  registry := ⟨"hub", "https://Hub.example.com:8443/harbor", ⟨"admin", "pw"⟩, .harbor, .leaf,
    ⟨false, none⟩, .empty⟩
  base := ⟨"https", "", some "hub.example.com", some 8443, .segments ["harbor"], none, none⟩
  userAgent := ClientSettings.standard.userAgent
  pageSize := ClientSettings.standard.pageSize
  pageLimit := pagesCountable

theorem host_addressed_iff_ported :
    (∃ request, portedHub.request? .get "/api/v2.0/projects" [] none = some request
        ∧ request.url.host = some "hub.example.com" ∧ request.url.port = some 8443)
      ∧ Alike portedHub.registry.host.toList (siteText portedHub.registry.endpoint portedHub.base)
      ∧ PlainSite portedHub.registry.host.toList := by
  have hc : ofRegistry portedHub.registry .standard = .ok portedHub := by rfl
  obtain ⟨hrequests, -, -, hslashed, -⟩ := host_addressed_iff hc rfl
  obtain ⟨hiff, husual⟩ := hslashed
    ⟨"https".toList, "Hub.example.com:8443/harbor".toList, by decide, by decide⟩
  have hname : Host.Ordinary "Hub.example.com".toList :=
    .name (by decide)
      (fun d hd => of_decide_eq_true (List.all_eq_true.1
        (by decide : "Hub.example.com".toList.all (fun d => d.toNat < 0x80) = true) d hd))
      (fun d hd => (Bool.not_eq_true' _).mp (List.all_eq_true.1
        (by decide : "Hub.example.com".toList.all (fun d => !Host.isDenied d) = true) d hd))
      (by decide)
  have hdigits : ∀ digits ∈ some "8443".toList,
      digits ≠ [] ∧ ∀ d ∈ digits, d.isDigit = true := by
    rintro _ ⟨⟩
    exact ⟨by decide, List.all_eq_true.1 (by decide)⟩
  have halike := husual _ (some "8443".toList) hname hdigits (by decide)
  obtain ⟨request, hrequest⟩ : ∃ request,
      portedHub.request? .get "/api/v2.0/projects" [] none = some request :=
    Option.isSome_iff_exists.1 (isSome_request?_iff.2 ⟨⟨_, rfl⟩, rfl⟩)
  exact ⟨⟨request, hrequest, hrequests _ _ _ _ _ hrequest⟩, halike, hiff.1 halike⟩

/-- A connection to an endpoint with user information. -/
def userHub : Connection where
  registry := ⟨"hub", "https://admin:pw@hub.example.com", ⟨"admin", "pw"⟩, .harbor, .leaf,
    ⟨false, none⟩, .empty⟩
  base := ⟨"https", "admin:pw@", some "hub.example.com", none, .segments [""], none, none⟩
  userAgent := ClientSettings.standard.userAgent
  pageSize := ClientSettings.standard.pageSize
  pageLimit := pagesCountable

/-- **User information stays with the host of a registry**, and image references name it. -/
theorem host_keeps_user :
    ofRegistry userHub.registry .standard = .ok userHub
      ∧ userHub.base.isWeb = true
      ∧ userHub.registry.host = "admin:pw@hub.example.com"
      ∧ siteText userHub.registry.endpoint userHub.base = "hub.example.com".toList
      ∧ ¬ Alike userHub.registry.host.toList
          (siteText userHub.registry.endpoint userHub.base) :=
  ⟨by rfl, rfl, by decide, by decide, by decide⟩

end Web.Connection

end RegistryFleet
