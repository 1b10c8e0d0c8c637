import RegistryFleet.Proofs.Web.Connection
import RegistryFleet.Proofs.Web.Percent

/-!
# Proofs/Web/Segment — a name as a segment of a path

A path is put together from a stem, a name and a tail, and then read as an address is: blanks and
controls at its end are dropped, marks of a query and a fragment divide it, slashes divide the path,
dot segments are resolved, and what is foreign is escaped. A name that passes through all this as
one segment stands in the address, escaped, between what comes of the stem and what comes of the
tail; so the address tells the name as it is spelled there.

* `Url.Holds` — a name that stays one segment, and `Url.spelled`, what it is written as.
* `Url.requested_path` — what is requested for a stem, a name and a tail.
* `Url.Literal` — names that are told apart by their spelling.
-/

namespace RegistryFleet.Web.Url

variable {special : Bool} {c d : Char} {cs xs ys : List Char} {name name' tail : String}

/-! ## The ends of a text -/

/-- Is the character dropped at the ends of an address? -/
def isEdge (c : Char) : Bool := c.toNat ≤ 0x20

/-- Is the character kept inside an address? -/
def isKept (c : Char) : Bool := !(c == '\t' || c == '\n' || c == '\r')

theorem clean_eq (s : String) :
    clean s = (Text.dropEndWhile isEdge (s.toList.dropWhile isEdge)).filter isKept := rfl

/-- What is dropped from the end of a text ends at the last character that is not. -/
theorem dropEndWhile_append {p : Char → Bool} (hc : p c = false) (xs ys : List Char) :
    Text.dropEndWhile p (xs ++ c :: ys) = xs ++ c :: Text.dropEndWhile p ys := by
  unfold Text.dropEndWhile
  rw [List.reverse_append, List.reverse_cons, List.append_assoc, List.dropWhile_append]
  split
  · next hall =>
    rw [List.isEmpty_iff.1 hall, List.singleton_append, List.dropWhile_cons_of_neg (by simp [hc])]
    simp
  · simp

theorem mem_dropEndWhile {p : Char → Bool} (h : c ∈ Text.dropEndWhile p cs) : c ∈ cs :=
  List.mem_reverse.1 ((List.dropWhile_sublist p).subset (List.mem_reverse.1 h))

theorem mem_clean {s : String} (h : c ∈ clean s) : c ∈ s.toList :=
  (List.dropWhile_sublist _).subset (mem_dropEndWhile (List.mem_filter.1 h).1)

/-! ## Queries and fragments -/

/-- A text is cut behind what has no mark. -/
theorem cutAt?_append_left (hxs : d ∉ xs) (ys : List Char) :
    Text.cutAt? d (xs ++ ys) = (Text.cutAt? d ys).map fun (front, back) => (xs ++ front, back) := by
  induction xs with
  | nil => simp
  | cons x xs ih =>
    obtain ⟨hx, hxs⟩ := not_or.1 (mt List.mem_cons.2 hxs)
    rw [List.cons_append, Text.cutAt?, if_neg (Ne.symm hx), ih hxs]
    cases Text.cutAt? d ys <;> rfl

/-- **The parts of a text behind what has no marks.** -/
theorem parts_append (hfragment : '#' ∉ xs) (hquery : '?' ∉ xs) (ys : List Char) :
    parts (xs ++ ys) = (xs ++ (parts ys).1, (parts ys).2) := by
  unfold parts
  rw [cutAt?_append_left hfragment]
  rcases Text.cutAt? '#' ys with _ | ⟨front, back⟩
  · simp only [Option.map_none]
    rw [cutAt?_append_left hquery]
    rcases Text.cutAt? '?' ys with _ | ⟨path, query⟩ <;> rfl
  · simp only [Option.map_some]
    rw [cutAt?_append_left hquery]
    rcases Text.cutAt? '?' front with _ | ⟨path, query⟩ <;> rfl

theorem mem_parts (h : c ∈ (parts cs).1) : c ∈ cs := by
  have hcut : ∀ {d : Char} {cs front back : List Char}, Text.cutAt? d cs = some (front, back) →
      ∀ {c}, c ∈ front → c ∈ cs := fun hcut c hc => by
    rw [(Text.eq_append_of_cutAt? hcut).1]
    exact List.mem_append_left _ hc
  unfold parts at h
  rcases hfragment : Text.cutAt? '#' cs with _ | ⟨front, back⟩
  all_goals rw [hfragment] at h; simp only at h
  · rcases hquery : Text.cutAt? '?' cs with _ | ⟨path, query⟩
    all_goals rw [hquery] at h
    · exact h
    · exact hcut hquery h
  · rcases hquery : Text.cutAt? '?' front with _ | ⟨path, query⟩
    all_goals rw [hquery] at h
    · exact hcut hfragment h
    · exact hcut hfragment (hcut hquery h)

/-! ## Segments -/

theorem splitPath_ne_nil (special : Bool) : ∀ cs : List Char, splitPath special cs ≠ []
  | [] => List.cons_ne_nil _ _
  | c :: cs => by
      unfold splitPath
      split
      · exact List.cons_ne_nil _ _
      · split <;> exact List.cons_ne_nil _ _

theorem splitPath_slash (hc : isSlash special c = true) (cs : List Char) :
    splitPath special (c :: cs) = [] :: splitPath special cs := if_pos hc

theorem splitPath_plain (hc : isSlash special c = false) {s : List Char} {rest : List (List Char)}
    (h : splitPath special cs = s :: rest) : splitPath special (c :: cs) = (c :: s) :: rest := by
  rw [splitPath, hc, h]
  rfl

/-- **The segments of a text** go on where those of another end. -/
theorem splitPath_append (special : Bool) : ∀ xs : List Char, ∃ before last,
    ∀ {ys s rest}, splitPath special ys = s :: rest →
      splitPath special (xs ++ ys) = before ++ (last ++ s) :: rest
  | [] => ⟨[], [], fun h => h⟩
  | x :: xs => by
      obtain ⟨before, last, hxs⟩ := splitPath_append special xs
      by_cases hx : isSlash special x = true
      · refine ⟨[] :: before, last, fun h => ?_⟩
        rw [List.cons_append, splitPath_slash hx, hxs h, List.cons_append]
      · have hx := (Bool.not_eq_true _).mp hx
        rcases before with _ | ⟨b, before⟩
        · exact ⟨[], x :: last, fun h => splitPath_plain hx (hxs h)⟩
        · exact ⟨(x :: b) :: before, last, fun h => splitPath_plain hx (hxs h)⟩

/-- A text without slashes only makes the first segment longer. -/
theorem splitPath_undivided : ∀ {xs ys s : List Char} {rest : List (List Char)},
    (∀ c ∈ xs, isSlash special c = false) → splitPath special ys = s :: rest →
      splitPath special (xs ++ ys) = (xs ++ s) :: rest
  | [], _, _, _, _, h => h
  | _ :: _, _, _, _, hxs, h =>
      splitPath_plain (List.forall_mem_cons.1 hxs).1
        (splitPath_undivided (List.forall_mem_cons.1 hxs).2 h)

/-- The characters of a segment. -/
theorem mem_splitPath : ∀ {cs s : List Char}, s ∈ splitPath special cs →
    ∀ c ∈ s, c ∈ cs ∧ isSlash special c = false
  | [], s, hs, c, hc => by
      rw [List.mem_singleton.1 hs] at hc
      cases hc
  | x :: xs, s, hs, c, hc => by
      by_cases hx : isSlash special x = true
      · rw [splitPath_slash hx] at hs
        rcases List.mem_cons.1 hs with rfl | hs
        · cases hc
        · exact (mem_splitPath hs c hc).imp_left (List.mem_cons_of_mem _)
      · have hx := (Bool.not_eq_true _).mp hx
        obtain ⟨s', rest, hrest⟩ := List.exists_cons_of_ne_nil (splitPath_ne_nil special xs)
        have hmem : ∀ {t}, t ∈ splitPath special xs → ∀ c ∈ t,
            c ∈ x :: xs ∧ isSlash special c = false := fun ht c hc =>
          (mem_splitPath ht c hc).imp_left (List.mem_cons_of_mem _)
        rw [splitPath_plain hx hrest] at hs
        rw [hrest] at hmem
        rcases List.mem_cons.1 hs with rfl | hs
        · rcases List.mem_cons.1 hc with rfl | hc
          · exact ⟨List.mem_cons_self, hx⟩
          · exact hmem List.mem_cons_self c hc
        · exact hmem (List.mem_cons_of_mem _ hs) c hc

/-! ## Dot segments -/

/-- The places that segments lead to, the last one first. -/
def climb : List (List Char) → List (List Char) → List (List Char)
  | before, [] => before
  | before, s :: rest =>
    if isDotDot s then climb (before.drop 1) rest
    else if isDot s then climb before rest
    else climb (s :: before) rest

theorem resolve_append : ∀ {before ss ts : List (List Char)}, ts ≠ [] →
    resolve before (ss ++ ts) = resolve (climb before ss) ts
  | _, [], _, _ => rfl
  | before, s :: ss, ts, hts => by
      rw [List.cons_append, resolve.eq_3 _ _ _ fun h => hts (List.append_eq_nil_iff.1 h).2, climb]
      split
      · exact resolve_append hts
      · split
        · exact resolve_append hts
        · exact resolve_append hts

/-- **Segments that lead nowhere above** leave what comes before them as it is. -/
theorem resolve_forward : ∀ {ts before : List (List Char)}, (∀ s ∈ ts, isDotDot s = false) →
    resolve before ts = before.reverse ++ resolve [] ts
  | [], before, _ => (List.append_nil _).symm
  | [s], before, h => by
      have hs : isDotDot s = false := h s List.mem_cons_self
      simp only [resolve, hs, Bool.false_eq_true, if_false]
      split <;> simp
  | s :: t :: ts, before, h => by
      obtain ⟨hs, hts⟩ := List.forall_mem_cons.1 h
      have ih : ∀ before, resolve before (t :: ts) = before.reverse ++ resolve [] (t :: ts) :=
        fun _ => resolve_forward hts
      rw [resolve.eq_3 _ _ _ (List.cons_ne_nil _ _), resolve.eq_3 _ _ _ (List.cons_ne_nil _ _), hs]
      simp only [Bool.false_eq_true, if_false]
      split
      · exact ih before
      · rw [ih, ih [s], List.reverse_cons, List.append_assoc, List.reverse_singleton]

/-- **A segment that stands for itself** comes between what leads to it and what follows it. -/
theorem resolve_segment (ss : List (List Char)) {ts : List (List Char)} {s : List Char}
    (hdot : isDot s = false) (hdots : isDotDot s = false) (hts : ∀ s ∈ ts, isDotDot s = false) :
    resolve [] (ss ++ s :: ts) = (climb [] ss).reverse ++ s :: resolve [] ts := by
  have hcons : ∀ before, resolve before (s :: ts) = resolve (s :: before) ts := fun before => by
    rcases ts with _ | ⟨t, ts⟩
    · simp [resolve, hdot, hdots]
    · rw [resolve.eq_3 _ _ _ (List.cons_ne_nil _ _), hdots, hdot]
      rfl
  rw [resolve_append (List.cons_ne_nil _ _), hcons, resolve_forward hts, List.reverse_cons,
    List.append_assoc, List.singleton_append]

/-- What is made of dots and of their escapes. -/
inductive Dotted : List Char → Prop
  | nil : Dotted []
  | dot {s : List Char} (h : Dotted s) : Dotted ('.' :: s)
  | escaped {e : Char} {s : List Char} (he : e = 'e' ∨ e = 'E') (h : Dotted s) :
    Dotted ('%' :: '2' :: e :: s)

/-- **What is read as dots** is made of them and of their escapes. -/
theorem dotted_of_plainDots : ∀ {s : List Char}, (∀ c ∈ plainDots s, c = '.') → Dotted s := by
  intro s
  induction s using plainDots.induct with
  | case1 e rest he ih =>
    intro h
    rw [plainDots.eq_1, if_pos he] at h
    exact .escaped (by simpa using he) (ih (List.forall_mem_cons.1 h).2)
  | case2 e rest he =>
    intro h
    rw [plainDots.eq_1, if_neg he] at h
    exact absurd (h '%' List.mem_cons_self) (by decide)
  | case3 rest ih => exact fun h => .dot (ih (List.forall_mem_cons.1 h).2)
  | case4 => exact fun _ => .nil
  | case5 c tail hmark hdot =>
    intro h
    rw [plainDots.eq_4 _ _ hmark hdot] at h
    exact absurd (h c List.mem_cons_self) hdot

/-- The characters of a dot segment. -/
theorem Dotted.mem {s : List Char} (h : Dotted s) : ∀ c ∈ s, c ∈ ['.', '%', '2', 'e', 'E'] := by
  induction h with
  | nil => exact fun c hc => absurd hc List.not_mem_nil
  | dot _ ih => exact List.forall_mem_cons.2 ⟨by decide, ih⟩
  | escaped he _ ih =>
    simp only [List.forall_mem_cons]
    exact ⟨by decide, by decide, by rcases he with rfl | rfl <;> decide, ih⟩

/-- A segment with another character stands for itself. -/
theorem not_dots_of_mem (hc : c ∉ ['.', '%', '2', 'e', 'E']) (h : c ∈ cs) :
    isDot cs = false ∧ isDotDot cs = false := by
  have hdots : ∀ dots : List Char, (∀ c ∈ dots, c = '.') → (plainDots cs == dots) = false :=
    fun dots hdots => beq_false_of_ne fun heq =>
      hc ((dotted_of_plainDots fun d hd => hdots d (heq ▸ hd)).mem c h)
  exact ⟨hdots _ (by simp), hdots _ (by simp)⟩

/-- **Dot segments** are dots with their escapes read. -/
theorem Dotted.percentDecode_eq {s : List Char} (h : Dotted s) :
    percentDecode s = (plainDots s).flatMap String.utf8EncodeChar := by
  induction h with
  | nil => rfl
  | dot _ ih =>
    rw [plainDots.eq_2, percentDecode.eq_3 _ _ fun _ _ _ hc => absurd hc (by decide),
      List.flatMap_cons, ih]
  | @escaped e s he _ ih =>
    have hread : Text.readNat? 16 ['2', e] = some 0x2E := by rcases he with rfl | rfl <;> decide
    have hdot : (e == 'e' || e == 'E') = true := by simpa using he
    rw [plainDots.eq_1, if_pos hdot, percentDecode.eq_2, hread, List.flatMap_cons, ← ih]
    rfl

/-! ## Stems, names and tails -/

/-- **What stands in front of a name**: a path that ends in a slash, or in an underscore that the
name is glued to, and has neither query nor fragment. -/
def Stem (stem : String) : Prop :=
  ∃ inner last, stem.toList = '/' :: (inner ++ [last]) ∧ (last = '/' ∨ last = '_')
    ∧ '?' ∉ inner ∧ '#' ∉ inner

/-- **What follows a name**: nothing, or a path that leads nowhere above. -/
structure Steady (tail : String) : Prop where
  below : tail = "" ∨ ∃ rest, tail.toList = '/' :: rest
  forward : ∀ s ∈ splitPath true (parts (clean tail)).1,
    isDotDot (percentEncode pathSet s) = false

/-- A name as it is read in front of a tail; without one, its end is that of the text. -/
def placed (tail name : String) : List Char :=
  (if tail = "" then Text.dropEndWhile isEdge name.toList else name.toList).filter isKept

/-- **What a name is written as** in an address. -/
def spelled (tail name : String) : List Char := percentEncode pathSet (placed tail name)

/-- **A name that stays one segment.** -/
structure Holds (tail name : String) : Prop where
  undivided : ∀ c ∈ name.toList, c ∉ ['/', '\\', '?', '#']
  settled : isDot (spelled tail name) = false ∧ isDotDot (spelled tail name) = false

variable {stem : String}

theorem mem_placed (h : c ∈ placed tail name) : c ∈ name.toList := by
  have h := (List.mem_filter.1 h).1
  split at h
  · exact mem_dropEndWhile h
  · exact h

/-- A tail is trimmed by itself. -/
theorem Steady.clean_eq (htail : Steady tail) :
    clean tail = (Text.dropEndWhile isEdge tail.toList).filter isKept := by
  rcases htail.below with rfl | ⟨rest, hrest⟩
  · rfl
  · rw [Url.clean_eq, hrest, List.dropWhile_cons_of_neg (by decide)]

/-- Stem, name and tail are read one after another. -/
theorem clean_path (hstem : Stem stem) (htail : Steady tail) (name : String) :
    clean (stem ++ name ++ tail)
      = stem.toList.filter isKept ++ placed tail name ++ clean tail := by
  obtain ⟨inner, last, hinner, hlast, -⟩ := hstem
  have hstart : (stem ++ name ++ tail).toList.dropWhile isEdge
      = stem.toList ++ name.toList ++ tail.toList := by
    rw [String.toList_append, String.toList_append, hinner, List.cons_append, List.cons_append,
      List.dropWhile_cons_of_neg (by decide)]
  have hend : Text.dropEndWhile isEdge (stem.toList ++ name.toList ++ tail.toList)
      = stem.toList ++ (if tail = "" then Text.dropEndWhile isEdge name.toList else name.toList)
        ++ Text.dropEndWhile isEdge tail.toList := by
    rcases htail.below with rfl | ⟨rest, hrest⟩
    · have hlast : isEdge last = false := by rcases hlast with rfl | rfl <;> decide
      have hsplit : stem.toList ++ name.toList = '/' :: inner ++ last :: name.toList := by
        rw [hinner]
        simp
      rw [if_pos rfl, String.toList_empty, List.append_nil, hsplit, dropEndWhile_append hlast,
        Text.dropEndWhile_nil, hinner]
      simp
    · have hne : tail ≠ "" := fun h => by
        rw [h] at hrest
        cases hrest
      rw [if_neg hne, hrest, dropEndWhile_append (by decide), ← List.nil_append ('/' :: rest),
        dropEndWhile_append (by decide), List.nil_append]
  rw [Url.clean_eq, hstart, hend, List.filter_append, List.filter_append, htail.clean_eq, placed]

/-- The path of a tail is empty or begins with a slash. -/
theorem Steady.path (htail : Steady tail) :
    (parts (clean tail)).1 = [] ∨ ∃ rest, (parts (clean tail)).1 = '/' :: rest := by
  rcases htail.below with rfl | ⟨rest, hrest⟩
  · exact .inl rfl
  · refine .inr ?_
    rw [htail.clean_eq, hrest, ← List.nil_append ('/' :: rest), dropEndWhile_append (by decide),
      List.nil_append, List.filter_cons_of_pos (by decide), ← List.singleton_append,
      parts_append (by decide) (by decide)]
    exact ⟨_, rfl⟩

/-- What a tail adds to the segments. -/
def tailSegments (tail : String) : List (List Char) :=
  ((splitPath true (parts (clean tail)).1).tail).map (percentEncode pathSet)

theorem Steady.splitPath_tail (htail : Steady tail) :
    splitPath true (parts (clean tail)).1 = [] :: (splitPath true (parts (clean tail)).1).tail := by
  rcases htail.path with hpath | ⟨rest, hpath⟩
  · rw [hpath]
    rfl
  · rw [hpath, splitPath_slash (by decide), List.tail_cons]

theorem Steady.forward_tail (htail : Steady tail) :
    ∀ s ∈ tailSegments tail, isDotDot s = false := by
  intro s hs
  rw [tailSegments] at hs
  obtain ⟨t, ht, rfl⟩ := List.mem_map.1 hs
  exact htail.forward t (List.mem_of_mem_tail ht)

/-- Segments as they are written. -/
def written (ss : List (List Char)) : List Char := ss.flatMap ('/' :: ·)

theorem text_segments (ss : List (List Char)) :
    (UrlPath.segments (ss.map String.ofList)).text.toList = written ss := by
  rw [UrlPath.text, String.toList_join, List.map_map, List.flatMap_map, written]
  congr 1
  funext s
  simp

/-- The segments of a stem: what is behind its first slash ends in a segment that names begin, or
are glued to. -/
theorem splitPath_stem (hstem : Stem stem) : ∃ before lead, (lead = [] ∨ '_' ∈ lead)
    ∧ ∀ {ys s rest}, splitPath true ys = s :: rest →
      splitPath true ((stem.toList.filter isKept).drop 1 ++ ys)
        = before ++ (lead ++ s) :: rest := by
  obtain ⟨inner, last, hinner, hlast, -⟩ := hstem
  obtain ⟨before, lead, hsplit⟩ := splitPath_append true (inner.filter isKept)
  have hdrop : ∀ ys, (stem.toList.filter isKept).drop 1 ++ ys
      = inner.filter isKept ++ last :: ys := fun ys => by
    rw [hinner, List.filter_cons_of_pos (by decide), List.filter_append,
      List.filter_cons_of_pos (by rcases hlast with rfl | rfl <;> decide)]
    simp
  rcases hlast with rfl | rfl
  · refine ⟨before ++ [lead], [], .inl rfl, fun h => ?_⟩
    rw [hdrop, hsplit (splitPath_slash (by decide) _), h]
    simp
  · refine ⟨before, lead ++ ['_'], .inr (by simp), fun h => ?_⟩
    rw [hdrop, hsplit (splitPath_plain (by decide) h)]
    simp

/-- **The segments of a stem, a name and a tail**: the name is one of them, or the end of one. -/
theorem splitPath_path (hstem : Stem stem) : ∃ before lead, (lead = [] ∨ '_' ∈ lead)
    ∧ ∀ {tail name}, Steady tail → Holds tail name →
      splitPath true ((stem.toList.filter isKept ++ placed tail name
          ++ (parts (clean tail)).1).drop 1)
        = before ++ (lead ++ placed tail name)
          :: (splitPath true (parts (clean tail)).1).tail := by
  obtain ⟨before, lead, hlead, hsplit⟩ := splitPath_stem hstem
  refine ⟨before, lead, hlead, fun {tail name} htail hname => ?_⟩
  have hplain : ∀ c ∈ placed tail name, isSlash true c = false := fun c hc => by
    have hc := hname.undivided c (mem_placed hc)
    simp only [List.mem_cons, not_or] at hc
    simp [isSlash, hc.1, hc.2.1]
  have hstart : stem.toList.filter isKept ≠ [] := by
    obtain ⟨inner, last, hinner, -⟩ := hstem
    rw [hinner, List.filter_cons_of_pos (by decide)]
    exact List.cons_ne_nil _ _
  have hname := splitPath_undivided hplain htail.splitPath_tail
  rw [List.append_nil] at hname
  rw [List.append_assoc, List.drop_append_of_le_length (List.length_pos_iff.2 hstart), hsplit hname]

/-- A name that stays one segment is no dot segment behind what it is glued to. -/
theorem Holds.settled_behind {lead : List Char} (hname : Holds tail name)
    (hlead : lead = [] ∨ '_' ∈ lead) :
    isDot (percentEncode pathSet (lead ++ placed tail name)) = false
      ∧ isDotDot (percentEncode pathSet (lead ++ placed tail name)) = false := by
  rcases hlead with rfl | hlead
  · exact hname.settled
  · exact not_dots_of_mem (by decide)
      (mem_percentEncode_of_kept (by decide) (List.mem_append_left _ hlead))

/-- **The path of a stem, a name and a tail.** -/
theorem pathOf_path (hstem : Stem stem) : ∃ front, ∀ {tail name}, Steady tail → Holds tail name →
    (pathOf true ((stem.toList.filter isKept ++ placed tail name
        ++ (parts (clean tail)).1).drop 1)).text.toList
      = front ++ spelled tail name ++ written (resolve [] (tailSegments tail)) := by
  obtain ⟨before, lead, hlead, hsplit⟩ := splitPath_path hstem
  refine ⟨written (climb [] (before.map (percentEncode pathSet))).reverse
    ++ '/' :: percentEncode pathSet lead, fun {tail name} htail hname => ?_⟩
  obtain ⟨hdot, hdots⟩ := hname.settled_behind hlead
  have hresolve := resolve_segment (before.map (percentEncode pathSet)) hdot hdots
    htail.forward_tail
  rw [pathOf, hsplit htail hname, List.map_append, List.map_cons, text_segments]
  change written (resolve [] (_ ++ _ :: tailSegments tail)) = _
  rw [hresolve, percentEncode_append, spelled]
  simp [written]

/-! ## Requests -/

/-- Parameters change the query and nothing else. -/
theorem exists_withParameters (query : Option String) (parameters : List (String × String)) :
    ∃ query', ∀ u : Url, u.query = query →
      u.withParameters parameters = { u with query := query' } := by
  refine ⟨((⟨"", "", none, none, .bare "", query, none⟩ : Url).withParameters parameters).query,
    ?_⟩
  rintro u rfl
  unfold withParameters
  split
  · rfl
  · rcases u.query with _ | q <;> simp

theorem isSpecial_of_isWeb {u : Url} (h : u.isWeb = true) : isSpecial u.scheme = true := by
  rcases Bool.or_eq_true_iff.1 h with h | h
  all_goals
    rw [isSpecial, eq_of_beq h]
    rfl

theorem segments_of_pathAfterHost (special : Bool) (cs : List Char) :
    ∃ names, pathAfterHost special cs = .segments names := by
  unfold pathAfterHost
  split <;> split <;> exact ⟨_, rfl⟩

theorem segments_of_withHost {scheme : String} {cs : List Char} {query fragment : Option String}
    {u : Url} (h : withHost scheme cs query fragment = .ok u) :
    ∃ names, u.path = .segments names := by
  unfold withHost at h
  simp only [bind, Except.bind, pure, Except.pure] at h
  split at h
  · cases h
  split at h
  all_goals
    split at h
    · cases h
    split at h
    · cases h
    obtain rfl := Except.ok.inj h
    exact segments_of_pathAfterHost _ _

theorem segments_of_ofFile {cs : List Char} {query fragment : Option String} {u : Url}
    (h : ofFile cs query fragment = .ok u) : ∃ names, u.path = .segments names := by
  unfold ofFile at h
  simp only [bind, Except.bind, pure, Except.pure] at h
  generalize (if cs.head?.any (isSlash true) = true then cs.drop 1 else cs) = behind at h
  split at h
  · split at h
    · obtain rfl := Except.ok.inj h
      exact segments_of_pathAfterHost _ _
    · split at h
      · cases h
      · obtain rfl := Except.ok.inj h
        exact segments_of_pathAfterHost _ _
  · obtain rfl := Except.ok.inj h
    exact ⟨_, rfl⟩

/-- **An address of the web has segments for a path**, so that others can be put in their place. -/
theorem segments_of_parse {s : String} {u : Url} (h : parse s = .ok u) (hweb : u.isWeb = true) :
    ∃ names, u.path = .segments names := by
  unfold parse at h
  split at h
  · cases h
  simp only at h
  split at h
  · exact segments_of_ofFile h
  split at h
  · exact segments_of_withHost h
  · next hplain =>
    split at h
    · exact segments_of_withHost h
    · obtain rfl := Except.ok.inj h
      exact ⟨_, rfl⟩
    · obtain rfl := Except.ok.inj h
      exact absurd (isSpecial_of_isWeb hweb) hplain

/-- What is read of a path by an address of a web scheme. -/
theorem join_of_isWeb {base url : Url} {reference : String} (hweb : base.isWeb = true)
    (h : base.join reference = .ok url) : url = { base with
      path := pathOf true ((parts (clean reference)).1.drop 1)
      query := (parts (clean reference)).2.1.map (queryText true)
      fragment := (parts (clean reference)).2.2.map fragmentText } := by
  unfold join at h
  split at h
  · cases h
  · rw [isSpecial_of_isWeb hweb] at h
    exact (Except.ok.inj h).symm

/-- The marks of a query and a fragment do not come before the tail. -/
theorem not_mem_marks (hstem : Stem stem) (hname : Holds tail name) :
    '#' ∉ stem.toList.filter isKept ++ placed tail name
      ∧ '?' ∉ stem.toList.filter isKept ++ placed tail name := by
  have hnot : ∀ d, d ∈ ['#', '?'] → d ∉ stem.toList.filter isKept ++ placed tail name := by
    obtain ⟨inner, last, hinner, hlast, hquery, hfragment⟩ := hstem
    intro d hd hmem
    have hd : d = '#' ∨ d = '?' := by simpa using hd
    rcases List.mem_append.1 hmem with hmem | hmem
    · have hmem := (List.mem_filter.1 hmem).1
      rw [hinner] at hmem
      have hmem : d = '/' ∨ d ∈ inner ∨ d = last := by simpa using hmem
      rcases hd with rfl | rfl <;> rcases hlast with rfl | rfl <;> simp_all
    · refine hname.undivided d (mem_placed hmem) ?_
      rcases hd with rfl | rfl <;> decide
  exact ⟨hnot _ (by decide), hnot _ (by decide)⟩

/-- Segments and a query begin with a mark. -/
theorem head_behind : ∀ (ss : List (List Char)) (query : Option String),
    ∀ d ∈ (written ss ++ (query.elim "" ("?" ++ ·)).toList).head?, d = '/' ∨ d = '?'
  | _ :: _, _, _, hd => .inl (Option.some.inj hd).symm
  | [], some q, d, hd => by
      simp only [written, List.flatMap_nil, List.nil_append, Option.elim_some,
        String.toList_append] at hd
      exact .inr (Option.some.inj hd).symm
  | [], none, _, hd => nomatch hd

/-- **What is requested** for a stem, a name and a tail: the name as it is spelled, between what is
the same for all names. -/
theorem requested_path (c : Connection) (hstem : Stem stem) :
    ∃ front, ∀ {tail}, Steady tail → ∀ parameters, ∃ back : List Char,
      (∀ d ∈ back.head?, d = '/' ∨ d = '?') ∧ ∀ {name method body request}, Holds tail name →
        c.request? method (stem ++ name ++ tail) parameters body = some request →
          request.url.requested.toList = front ++ spelled tail name ++ back := by
  obtain ⟨front, hpath⟩ := pathOf_path hstem
  refine ⟨c.base.withoutUserinfo.front.toList ++ front, fun {tail} htail parameters => ?_⟩
  obtain ⟨query, hquery⟩ := exists_withParameters
    ((parts (clean tail)).2.1.map (queryText true)) parameters
  refine ⟨written (resolve [] (tailSegments tail)) ++ (query.elim "" ("?" ++ ·)).toList, ?_, ?_⟩
  · exact head_behind _ query
  intro name method body request hname h
  have hmarks := not_mem_marks hstem hname
  have hparts : parts (clean (stem ++ name ++ tail))
      = (stem.toList.filter isKept ++ placed tail name ++ (parts (clean tail)).1,
        (parts (clean tail)).2) := by
    rw [clean_path hstem htail, parts_append hmarks.1 hmarks.2]
  obtain ⟨hweb, url, hurl, hrequest⟩ := Connection.url_of_request? h
  rw [hrequest, join_of_isWeb hweb hurl, hparts, hquery _ rfl]
  simp only [requested, withoutUserinfo, String.toList_append, hpath htail hname]
  simp [Url.front, hostText]

/-! ## Names that are told apart -/

/-- A spelling has neither slashes nor marks of a query. -/
theorem Holds.spelled_plain (hname : Holds tail name) :
    ∀ d ∈ spelled tail name, d ≠ '/' ∧ d ≠ '?' := by
  intro d hd
  rcases mem_percentEncode hd with hd | rfl | ⟨v, hv, rfl⟩
  · have hd := hname.undivided d (mem_placed hd)
    simp only [List.mem_cons, not_or] at hd
    exact ⟨hd.1, hd.2.2.1⟩
  · decide
  · exact (by decide : ∀ v < 16, Text.upperDigit v ≠ '/' ∧ Text.upperDigit v ≠ '?') v hv

/-- A text without marks ends where a mark comes. -/
theorem takeWhile_plain (hxs : ∀ d ∈ xs, d ≠ '/' ∧ d ≠ '?')
    (hys : ∀ d ∈ ys.head?, d = '/' ∨ d = '?') :
    (xs ++ ys).takeWhile (fun d => d != '/' && d != '?') = xs := by
  rw [List.takeWhile_append_of_pos fun d hd => by simpa using hxs d hd]
  rcases ys with _ | ⟨y, ys⟩
  · simp
  · rcases hys y rfl with rfl | rfl <;> simp

section Requests

variable {c : Connection} {method method' : Method}
  {parameters parameters' : List (String × String)} {body body' : Option Data}
  {request request' : Request} {tail' : String}

/-- **An address tells how a name is spelled**, whatever follows the name. -/
theorem spelled_of_requested (hstem : Stem stem) (htail : Steady tail) (htail' : Steady tail')
    (hname : Holds tail name) (hname' : Holds tail' name')
    (h : c.request? method (stem ++ name ++ tail) parameters body = some request)
    (h' : c.request? method' (stem ++ name' ++ tail') parameters' body' = some request')
    (heq : request.url.requested = request'.url.requested) :
    spelled tail name = spelled tail' name' := by
  obtain ⟨front, hfront⟩ := requested_path c hstem
  obtain ⟨back, hback, hrequested⟩ := hfront htail parameters
  obtain ⟨back', hback', hrequested'⟩ := hfront htail' parameters'
  have heq := congrArg String.toList heq
  rw [hrequested hname h, hrequested' hname' h', List.append_assoc, List.append_assoc] at heq
  rw [← takeWhile_plain hname.spelled_plain hback, List.append_cancel_left heq,
    takeWhile_plain hname'.spelled_plain hback']

/-- **Names that are spelled alike have one address.** -/
theorem requested_of_spelled (hstem : Stem stem) (htail : Steady tail) (hname : Holds tail name)
    (hname' : Holds tail name')
    (h : c.request? method (stem ++ name ++ tail) parameters body = some request)
    (h' : c.request? method' (stem ++ name' ++ tail) parameters body' = some request')
    (heq : spelled tail name = spelled tail name') :
    request.url.requested = request'.url.requested := by
  obtain ⟨front, hfront⟩ := requested_path c hstem
  obtain ⟨back, -, hrequested⟩ := hfront htail parameters
  rw [← String.toList_inj, hrequested hname h, hrequested hname' h', heq]

end Requests

/-- **A name that is written as it is**, but for what is escaped: nothing in it divides it, nothing
is dropped from it, and no escape and no dot segment is read in it. -/
structure Literal (name : String) : Prop where
  undivided : ∀ c ∈ name.toList, c ∉ ['/', '\\', '?', '#', '\t', '\n', '\r']
  ended : ∀ c ∈ name.toList.getLast?, isEdge c = false
  unescaped : hasEscape name.toList = false
  settled : name ≠ "." ∧ name ≠ ".."

namespace Literal

theorem placed (h : Literal name) (tail : String) : placed tail name = name.toList := by
  have hend : Text.dropEndWhile isEdge name.toList = name.toList := by
    rcases List.eq_nil_or_concat name.toList with hnil | ⟨front, last, hlast⟩
    · rw [hnil]
      rfl
    · have hedge := h.ended last (by rw [hlast]; simp)
      rw [hlast, List.concat_eq_append, dropEndWhile_append hedge, Text.dropEndWhile_nil]
  rw [Url.placed, hend, ite_self]
  refine List.filter_eq_self.2 fun c hc => ?_
  have hc := h.undivided c hc
  simp only [List.mem_cons, not_or] at hc
  simp [isKept, hc]

theorem percentDecode_spelled (h : Literal name) (tail : String) :
    percentDecode (spelled tail name) = name.toList.flatMap String.utf8EncodeChar := by
  rw [spelled, h.placed, percentDecode_percentEncode (by decide) h.unescaped]

/-- **It stays one segment**, whatever follows it. -/
theorem holds (h : Literal name) (tail : String) : Holds tail name where
  undivided c hc hmem := h.undivided c hc (List.mem_append_left ['\t', '\n', '\r'] hmem)
  settled := by
    have hdots : ∀ dots : List Char, (∀ c ∈ dots, c = '.') → name ≠ String.ofList dots →
        (plainDots (spelled tail name) == dots) = false := fun dots hdots hname =>
      beq_false_of_ne fun heq => by
        have hread := (dotted_of_plainDots fun c hc => hdots c (heq ▸ hc)).percentDecode_eq
        rw [heq, h.percentDecode_spelled] at hread
        exact hname (by rw [← octets_inj hread, String.ofList_toList])
    exact ⟨hdots _ (by simp) h.settled.1, hdots _ (by simp) h.settled.2⟩

/-- **Names that are written as they are are told apart** by their spelling. -/
theorem spelled_inj (h : Literal name) (h' : Literal name') {tail tail' : String}
    (heq : spelled tail name = spelled tail' name') : name = name' := by
  rw [spelled, spelled, h.placed, h'.placed] at heq
  exact String.toList_inj.1 (percentEncode_inj (by decide) h.unescaped h'.unescaped heq)

end Literal

/-! ## Tails -/

/-- Letters and digits are written as they are. -/
theorem kept_of_isAlphanum (h : c.isAlphanum = true) :
    isForeign c = false ∧ pathSet c = false := by
  constructor
  · change (decide ('A'.val ≤ c.val ∧ c.val ≤ 'Z'.val)
      || decide ('a'.val ≤ c.val) && decide (c.val ≤ 'z'.val)
      || decide ('0'.val ≤ c.val) && decide (c.val ≤ '9'.val)) = true at h
    simp only [Bool.or_eq_true, Bool.and_eq_true, decide_eq_true_eq, UInt32.le_iff_toNat_le] at h
    simp only [isForeign, Char.toNat, Bool.or_eq_false_iff, decide_eq_false_iff_not]
    have hvalues : 'A'.val.toNat = 65 ∧ 'Z'.val.toNat = 90 ∧ 'a'.val.toNat = 97
      ∧ 'z'.val.toNat = 122 ∧ '0'.val.toNat = 48 ∧ '9'.val.toNat = 57 := by decide
    omega
  · refine Bool.eq_false_iff.2 fun hc => ?_
    have hmem : c ∈ [' ', '"', '<', '>', '\x60', '#', '?', '\x7b', '\x7d'] := by
      simpa [pathSet, fragmentSet, or_assoc] using hc
    exact absurd h ((by simp : ∀ d ∈ [' ', '"', '<', '>', '\x60', '#', '?', '\x7b', '\x7d'],
      ¬ d.isAlphanum = true) c hmem)

/-- **A tail of letters, digits and slashes** leads nowhere above. -/
theorem steady_of_alphanum (hbelow : tail = "" ∨ ∃ rest, tail.toList = '/' :: rest)
    (hplain : ∀ c ∈ tail.toList, c = '/' ∨ c.isAlphanum = true) : Steady tail where
  below := hbelow
  forward s hs := by
    rcases s with _ | ⟨c, s⟩
    · rfl
    obtain ⟨hc, hslash⟩ := mem_splitPath hs c List.mem_cons_self
    rcases hplain c (mem_clean (mem_parts hc)) with rfl | hplain
    · cases hslash
    have hdot : plainDots (c :: percentEncode pathSet s) = [c] :=
      plainDots.eq_4 _ _ (fun _ _ hc => absurd (hc ▸ hplain) (by decide))
        fun hc => absurd (hc ▸ hplain) (by decide)
    rw [percentEncode_cons, percentEncodeChar_of_kept (kept_of_isAlphanum hplain),
      List.singleton_append, isDotDot, hdot]
    exact beq_false_of_ne (by simp)

end RegistryFleet.Web.Url
