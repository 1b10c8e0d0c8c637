import RegistryFleet.Proofs.Yaml.Lexer
import RegistryFleet.Proofs.Yaml.Scalar
import RegistryFleet.Proofs.Yaml.Tree

/-!
# Proofs/Yaml/Flow — JSON text reads as a YAML document

JSON escapes the control characters below the blank and leaves all others as they are. YAML reads
the strings as they were meant unless they hold a character that it does not allow or that breaks a
line. Between braces indentation means nothing, so each value is read up to the mark behind it.

* `isQuotable` — the characters that a JSON string may hold.
* `Lexer.reads_flow` — how a value is read.
* `ofText_pretty` — the document of a tree of texts.
-/

namespace RegistryFleet.Yaml

/-! ## Strings -/

/-- **Characters that a JSON string may hold** in a document: control characters are escaped, and
all others must be allowed and break no line. -/
def isQuotable (c : Char) : Bool := c.toNat < 32 || (isAllowed c && !isBreak c)

theorem line_of_quotable {c : Char} (h : isQuotable c = true) (hc : 32 ≤ c.toNat) :
    isBreak c = false := by
  simp only [isQuotable, Bool.or_eq_true, decide_eq_true_eq, Bool.and_eq_true,
    Bool.not_eq_true'] at h
  exact (h.resolve_left (by omega)).2

/-- Whether a character is escaped or stands as it is, what is written is allowed and breaks no
line. -/
theorem inline_escaped {c : Char} (h : isQuotable c = true) :
    ∀ d ∈ Json.escaped c, (isAllowed d && !isBreak d) = true := by
  have hdigit : ∀ v < 16,
      (isAllowed (Text.lowerDigit v) && !isBreak (Text.lowerDigit v)) = true := by decide
  have hmark : ['\\', 'u'].all (fun d => isAllowed d && !isBreak d) = true := by decide
  unfold Json.escaped
  split
  iterate 5 exact List.all_eq_true.1 rfl
  split_ifs with h8 h12 h32
  · exact List.all_eq_true.1 rfl
  · exact List.all_eq_true.1 rfl
  · intro d hd
    rcases List.mem_append.1 hd with hd | hd
    · exact List.all_eq_true.1 hmark d hd
    · obtain ⟨v, hv, rfl⟩ := Text.exists_of_mem_lowerHex hd
      exact hdigit v hv
  · have hc := (Bool.or_eq_true_iff.1 h).resolve_left (by simpa using h32)
    simpa using hc

/-- A text of a document between braces. -/
def IsFlowText (s : String) : Prop := ∀ c ∈ s.toList, isQuotable c = true

theorem inline_quote {s : String} (h : IsFlowText s) :
    ∀ d ∈ (Json.quote s).toList, (isAllowed d && !isBreak d) = true := by
  intro d hd
  simp only [Json.quote, String.toList_ofList, List.mem_append, List.mem_cons, List.mem_flatMap,
    List.not_mem_nil, or_false] at hd
  rcases hd with (rfl | ⟨c, hc, hd⟩) | rfl
  · rfl
  · exact inline_escaped (h c hc) d hd
  · rfl

theorem allowed_quote {s : String} (h : IsFlowText s) :
    ∀ d ∈ (Json.quote s).toList, isAllowed d = true :=
  fun d hd => (Bool.and_eq_true_iff.1 (inline_quote h d hd)).1

/-- **A key** between braces: one word, within reach of its colon. -/
structure IsFlowKey (s : String) : Prop where
  text : IsFlowText s
  word : ' ' ∉ s.toList
  reach : (Json.quote s).toList.length ≤ PossibleKey.reach

namespace Lexer

/-! ## Marks -/

/-- Between braces, where no key is possible yet. -/
def inBraces (ts : List Token) (depth : Nat) (keyAllowed : Bool) (c : Cursor) : Lexer :=
  ⟨c, ts, -1, [], none, List.replicate depth none, keyAllowed, false⟩

variable {s : Lexer} {ts : List Token} {depth : Nat} {keyAllowed : Bool} {c : Cursor}
  {rest tail : List Char} {m i l k : Nat}

theorem fresh_inBraces : (inBraces ts depth keyAllowed c).Fresh :=
  fresh_of_reach (fun _ h => by cases h) fun o ho k hk => by
    rw [List.eq_of_mem_replicate ho] at hk
    cases hk

/-- A mark is read where it stands, or behind the break in front of it. -/
theorem read?_inBraces {d : Char} (h : Begins (d :: rest)) :
    (inBraces ts (depth + 1) keyAllowed ⟨d :: rest, i, l, k⟩).read?
      = (inBraces ts (depth + 1) keyAllowed ⟨d :: rest, i, l, k⟩).readAt? d :=
  read?_cons rfl h fresh_inBraces (close_of_inFlow rfl _)

theorem read?_lineBefore {d : Char} (h : Begins (d :: rest)) :
    (inBraces ts (depth + 1) keyAllowed
        ⟨'\n' :: (List.replicate m ' ' ++ d :: rest), i, l, k⟩).read?
      = (inBraces ts (depth + 1) keyAllowed ⟨d :: rest, i + 1 + m, l + 1, m⟩).readAt? d := by
  have hskip : (inBraces ts (depth + 1) keyAllowed
      ⟨'\n' :: (List.replicate m ' ' ++ d :: rest), i, l, k⟩).skip
      = inBraces ts (depth + 1) keyAllowed ⟨d :: rest, i + 1 + m, l + 1, m⟩ := by
    rw [skip_line h rfl]
    simp [inBraces, inFlow]
  have hbegins : (inBraces ts (depth + 1) keyAllowed ⟨d :: rest, i + 1 + m, l + 1, m⟩).skip
      = inBraces ts (depth + 1) keyAllowed ⟨d :: rest, i + 1 + m, l + 1, m⟩ := skip_begins h
  rw [read?_of_skip (hskip.trans hbegins.symm), read?_inBraces h]

theorem read?_blankBefore {d : Char} (h : Begins (d :: rest)) :
    (inBraces ts (depth + 1) keyAllowed ⟨' ' :: d :: rest, i, l, k⟩).read?
      = (inBraces ts (depth + 1) keyAllowed ⟨d :: rest, i + 1, l, k + 1⟩).readAt? d := by
  have hskip : (inBraces ts (depth + 1) keyAllowed ⟨' ' :: d :: rest, i, l, k⟩).skip
      = inBraces ts (depth + 1) keyAllowed ⟨d :: rest, i + 1, l, k + 1⟩ :=
    skip_spaces (m := 1) h rfl
  have hbegins : (inBraces ts (depth + 1) keyAllowed ⟨d :: rest, i + 1, l, k + 1⟩).skip
      = inBraces ts (depth + 1) keyAllowed ⟨d :: rest, i + 1, l, k + 1⟩ := skip_begins h
  rw [read?_of_skip (hskip.trans hbegins.symm), read?_inBraces h]

/-- A brace opens a record, which is a value and no key. -/
theorem reads_open : Reads 1
    (inBraces ts (depth + 1) false ⟨' ' :: '\x7b' :: rest, i, l, k⟩)
    (inBraces (ts ++ [.flowMappingStart]) (depth + 2) true ⟨rest, i + 2, l, k + 2⟩) := by
  refine .single rfl fresh_inBraces ?_ (by simp [inBraces])
  rw [read?_blankBefore (begins_cons.2 (by decide)), readAt?_open rfl]
  rfl

/-- A brace on a line of its own ends a record. -/
theorem reads_close : Reads 1
    (inBraces ts (depth + 1) false ⟨'\n' :: (List.replicate m ' ' ++ '\x7d' :: rest), i, l, k⟩)
    (inBraces (ts ++ [.flowMappingEnd]) depth false ⟨rest, i + 1 + m + 1, l + 1, m + 1⟩) := by
  refine .single rfl fresh_inBraces ?_ (by simp [inBraces])
  rw [read?_lineBefore (begins_cons.2 (by decide)), readAt?_close rfl]
  rfl

theorem reads_comma : Reads 1
    (inBraces ts (depth + 1) false ⟨',' :: rest, i, l, k⟩)
    (inBraces (ts ++ [.flowEntry]) (depth + 1) true ⟨rest, i + 1, l, k + 1⟩) := by
  refine .single rfl fresh_inBraces ?_ (by simp [inBraces])
  rw [read?_inBraces (begins_cons.2 (by decide)), readAt?_comma rfl]
  rfl

/-! ## Keys -/

/-- **The lexer stands in front of a key**: it reads as if no key were possible yet. -/
structure AwaitsKey (s : Lexer) (ts : List Token) (depth : Nat) (rest : List Char) : Prop where
  ended : s.ended = false
  fresh : s.Fresh
  tokens : s.tokens.length ≤ ts.length
  reads : ∃ i l k, s.read? = (inBraces ts (depth + 1) true ⟨rest, i, l, k⟩).read?

theorem awaitsKey_inBraces (ts : List Token) (depth : Nat) (rest : List Char) (i l k : Nat) :
    AwaitsKey (inBraces ts (depth + 1) true ⟨rest, i, l, k⟩) ts depth rest :=
  ⟨rfl, fresh_inBraces, Nat.le_refl _, i, l, k, rfl⟩

/-- Between a key in quotes, which may be one, and its colon. -/
def atFlowColon (ts : List Token) (depth : Nat) (w : String) (c next : Cursor) : Lexer :=
  ⟨next, ts ++ [.scalar w false], -1, [],
    some ⟨false, ts.length, c.line, c.index, c.column⟩, List.replicate depth none, false, false⟩

theorem fresh_atFlowColon {w : String} {next : Cursor} (hline : next.line = c.line)
    (hindex : next.index ≤ c.index + PossibleKey.reach) :
    (atFlowColon ts depth w c next).Fresh := by
  refine fresh_of_reach (fun k hk => ?_) fun o ho k hk => ?_
  · obtain rfl := Option.some.inj hk
    exact Bool.or_eq_false_iff.2 ⟨decide_eq_false (by simp only [atFlowColon]; omega),
      decide_eq_false (by simp only [atFlowColon]; omega)⟩
  · rw [List.eq_of_mem_replicate ho] at hk
    cases hk

theorem toList_quote (w : String) : (Json.quote w).toList
    = '"' :: (w.toList.flatMap Json.escaped ++ ['"']) := by
  simp [Json.quote]

/-- A key is one word in quotes, behind which its colon is in reach. -/
theorem read?_flowKey {w : String} (hw : IsFlowKey w) : ∃ c next : Cursor,
    (inBraces ts (depth + 1) true ⟨'\n' :: (List.replicate m ' ' ++ ((Json.quote w).toList
        ++ ':' :: tail)), i, l, k⟩).read? = some (atFlowColon ts (depth + 1) w c next)
      ∧ (atFlowColon ts (depth + 1) w c next).Fresh ∧ next.rest = ':' :: tail := by
  have hreach := hw.reach
  rw [toList_quote] at hreach ⊢
  simp only [List.cons_append, List.append_assoc, List.nil_append]
  simp only [List.length_cons, List.length_append, List.length_nil] at hreach
  have hword : ∀ c ∈ w.toList, ReadsAs false (Json.escaped c) c := fun c hc =>
    readsAs_escaped (fun he => hw.word (he ▸ hc)) (line_of_quotable (hw.text c hc))
  have hquoted : Lexeme.quoted? false ⟨Lexeme.quoteMark false :: (w.toList.flatMap Json.escaped
      ++ Lexeme.quoteMark false :: ':' :: tail), i + 1 + m, l + 1, m⟩ = _ :=
    quoted?_word hword (by simp)
  refine ⟨⟨'"' :: (w.toList.flatMap Json.escaped ++ '"' :: ':' :: tail), i + 1 + m, l + 1, m⟩,
    ⟨':' :: tail, i + 1 + m + 1 + (w.toList.flatMap Json.escaped).length + 1, l + 1,
      m + 1 + (w.toList.flatMap Json.escaped).length + 1⟩,
    ?_, fresh_atFlowColon rfl (by simp only; omega), rfl⟩
  rw [read?_lineBefore (begins_cons.2 (by decide))]
  refine (readAt?_quote false rfl).trans ?_
  rw [readLexeme?, noteKey?, giveUp?]
  simp only [inBraces, if_true, Option.any_none, Bool.false_eq_true, if_false, inFlow,
    Option.bind_eq_bind, Option.bind_some, Option.pure_def]
  rw [show '"' = Lexeme.quoteMark false from rfl, hquoted]
  simp only [Option.map_some, Option.bind_some, String.ofList_toList]
  rfl

/-- At its colon the word turns out to be a key. -/
theorem read?_flowColon {w : String} {next : Cursor} (hrest : next.rest = ':' :: tail)
    (hfresh : (atFlowColon ts (depth + 1) w c next).Fresh) :
    (atFlowColon ts (depth + 1) w c next).read?
      = some (inBraces (ts ++ [.key, .scalar w false, .value]) (depth + 1) false
          (next.advance 1)) := by
  have hfront : (ts ++ [Token.scalar w false]).take ts.length = ts := List.take_left
  have hback : (ts ++ [Token.scalar w false]).drop ts.length = [.scalar w false] :=
    List.drop_left
  rw [read?_cons hrest (begins_cons.2 (by decide)) hfresh (close_of_inFlow rfl _),
    readAt?_colon hrest rfl]
  simp only [readColon?, atFlowColon, emitAt, hfront, hback, openBlock, inFlow]
  simp [mark, emit, inBraces]

/-- **A key** and its colon. -/
theorem AwaitsKey.key {w : String} (hw : IsFlowKey w)
    (h : AwaitsKey s ts depth ('\n' :: (List.replicate m ' ' ++ ((Json.quote w).toList
      ++ ':' :: tail)))) : ∃ i l k,
    Reads 2 s (inBraces (ts ++ [.key, .scalar w false, .value]) (depth + 1) false
      ⟨tail, i, l, k⟩) := by
  obtain ⟨hended, hfresh, htokens, i, l, k, hreads⟩ := h
  obtain ⟨c, ⟨_, i', l', k'⟩, hkey, hcolon, hrest⟩ := read?_flowKey hw
  cases hrest
  refine ⟨i' + 1, l', k' + 1, .trans (.single hended hfresh (hreads.trans hkey) ?_)
    (.single rfl hcolon (read?_flowColon rfl hcolon) ?_)⟩
  · simp only [atFlowColon, List.length_append, List.length_singleton]
    omega
  · simp [atFlowColon, inBraces]

/-! ## Values -/

theorem reads_flowText {w : String} (hw : IsFlowText w) (htail : tail.head? ≠ some '\'') :
    ∃ c : Cursor, c.rest = tail ∧ Reads 1
      (inBraces ts (depth + 1) false ⟨' ' :: ((Json.quote w).toList ++ tail), i, l, k⟩)
      (inBraces (ts ++ [.scalar w false]) (depth + 1) false c) := by
  obtain ⟨next, hrest, -, hquoted⟩ := quoted?_quote (i := i + 1) (l := l) (k := k + 1)
    (fun c hc => line_of_quotable (hw c hc)) htail
  rw [toList_quote, List.cons_append] at hquoted ⊢
  refine ⟨next, hrest, .single rfl fresh_inBraces ?_ (by simp [inBraces])⟩
  rw [read?_blankBefore (begins_cons.2 (by decide))]
  refine (readAt?_quote false rfl).trans ?_
  rw [readLexeme?, noteKey?]
  simp only [inBraces, Bool.false_eq_true, if_false, Option.bind_eq_bind, Option.bind_some]
  rw [hquoted]
  simp only [Option.map_some, Option.bind_some, String.ofList_toList]
  rfl

end Lexer

/-- Trees that are written as JSON and read between braces. -/
abbrev IsFlowTree (d : Data) : Prop := d.IsTree IsFlowKey IsFlowText

/-- A comma stands between two fields. -/
theorem fieldTokens_braces (w : String) (d : Data) (f : String × Data)
    (rest : List (String × Data)) : Layout.braces.fieldTokens true ((w, d) :: f :: rest)
      = [.key, .scalar w false, .value] ++ (Layout.braces.tokens d
          ++ .flowEntry :: Layout.braces.fieldTokens true (f :: rest)) := rfl

theorem toList_newline (level : Nat) :
    (Json.newline level).toList = '\n' :: List.replicate (2 * level) ' ' := by
  rw [Json.newline, String.toList_append, Lexer.toList_pushn]
  rfl

theorem toList_indentedFields (level : Nat) (w : String) (d : Data) (rest : List (String × Data)) :
    (Json.indentedFields level ((w, d) :: rest)).toList
      = '\n' :: (List.replicate (2 * level) ' ' ++ ((Json.quote w).toList
          ++ ':' :: ' ' :: ((Json.indented level d).toList
            ++ if rest.isEmpty then [] else ',' :: (Json.indentedFields level rest).toList))) := by
  cases rest with
  | nil => simp [Json.indentedFields, toList_newline]
  | cons f rest => simp [Json.indentedFields, toList_newline]

theorem toList_indented_record {fs : List (String × Data)} (h : fs ≠ []) (level : Nat) :
    (Json.indented level (.record fs)).toList
      = '\x7b' :: ((Json.indentedFields (level + 1) fs).toList
          ++ '\n' :: (List.replicate (2 * level) ' ' ++ ['\x7d'])) := by
  obtain ⟨f, fs, rfl⟩ := List.exists_cons_of_ne_nil h
  simp [Json.indented, toList_newline]

namespace Lexer

/-- What is read of a value between braces, from the colon in front of it on. -/
def ReadsFlow (d : Data) : Prop :=
  ∀ (ts : List Token) (depth level i l k : Nat) (tail : List Char), tail.head? ≠ some '\'' →
    ∃ (j : Nat) (c : Cursor), c.rest = tail ∧ Reads j
      (inBraces ts (depth + 1) false
        ⟨' ' :: ((Json.indented level d).toList ++ tail), i, l, k⟩)
      (inBraces (ts ++ Layout.braces.tokens d) (depth + 1) false c)

/-- **Fields** between braces are read one after another. -/
theorem AwaitsKey.fields {fs : List (String × Data)} (hfs : fs ≠ [])
    (hkeys : ∀ f ∈ fs, IsFlowKey f.1) (hvalues : ∀ f ∈ fs, ReadsFlow f.2) :
    ∀ {s : Lexer} {ts : List Token} {depth level : Nat} {tail : List Char},
    AwaitsKey s ts depth ((Json.indentedFields level fs).toList ++ tail) →
    tail.head? ≠ some '\'' → ∃ (j : Nat) (c : Cursor), c.rest = tail
      ∧ Reads j s (inBraces (ts ++ Layout.braces.fieldTokens true fs) (depth + 1) false c) := by
  induction fs with
  | nil => exact absurd rfl hfs
  | cons f fs ih =>
    obtain ⟨w, d⟩ := f
    obtain ⟨hw, hkeys⟩ := List.forall_mem_cons.1 hkeys
    obtain ⟨hvalue, hvalues⟩ := List.forall_mem_cons.1 hvalues
    intro s ts depth level tail hawaits htail
    rw [toList_indentedFields] at hawaits
    simp only [List.cons_append, List.append_assoc] at hawaits
    obtain ⟨i, l, k, hkey⟩ := hawaits.key hw
    cases fs with
    | nil =>
      obtain ⟨j, c, hrest, hread⟩ := hvalue (ts ++ [.key, .scalar w false, .value]) depth level
        i l k tail htail
      have hall := hkey.trans hread
      refine ⟨2 + j, c, hrest, ?_⟩
      simpa [Layout.fieldTokens, Layout.braces] using hall
    | cons f fs =>
      obtain ⟨j, c, hrest, hread⟩ := hvalue (ts ++ [.key, .scalar w false, .value]) depth level
        i l k (',' :: ((Json.indentedFields level (f :: fs)).toList ++ tail)) (by simp)
      obtain ⟨_, i', l', k'⟩ := c
      subst hrest
      obtain ⟨j', c', hrest', hmore⟩ := ih (List.cons_ne_nil f fs) hkeys hvalues
        (awaitsKey_inBraces (ts ++ [.key, .scalar w false, .value] ++ Layout.braces.tokens d
          ++ [.flowEntry]) depth _ (i' + 1) l' (k' + 1)) htail
      have hall := ((hkey.trans hread).trans reads_comma).trans hmore
      refine ⟨2 + j + 1 + j', c', hrest', ?_⟩
      rw [fieldTokens_braces]
      simpa using hall

/-- **A value is read** as the tokens of its tree. -/
theorem reads_flow {d : Data} (h : IsFlowTree d) : ReadsFlow d := by
  induction h with
  | text hw =>
    intro ts depth level i l k tail htail
    exact ⟨1, reads_flowText hw htail⟩
  | @record fs hfs hkeys htrees ih =>
    intro ts depth level i l k tail htail
    rw [toList_indented_record hfs]
    have hawaits := awaitsKey_inBraces (ts ++ [.flowMappingStart]) (depth + 1)
      ((Json.indentedFields (level + 1) fs).toList
        ++ '\n' :: (List.replicate (2 * level) ' ' ++ '\x7d' :: tail)) (i + 2) l (k + 2)
    obtain ⟨j, c, hrest, hread⟩ := hawaits.fields hfs hkeys ih (by simp)
    obtain ⟨_, i', l', k'⟩ := c
    subst hrest
    have hall := (reads_open.trans hread).trans reads_close
    refine ⟨1 + j + 1, ⟨tail, i' + 1 + 2 * level + 1, l' + 1, 2 * level + 1⟩, rfl, ?_⟩
    simpa [Layout.tokens, Layout.braces] using hall

/-! ## Documents -/

/-- Behind the brace that opens the document, which might have been a key. -/
def afterBrace (rest : List Char) : Lexer :=
  ⟨⟨rest, 1, 0, 1⟩, [.flowMappingStart], -1, [], none, [some ⟨false, 0, 0, 0, 0⟩], true, false⟩

theorem fresh_afterBrace : (afterBrace rest).Fresh := by
  refine fresh_of_reach (fun _ h => by cases h) fun o ho k hk => ?_
  obtain rfl := List.mem_singleton.1 ho
  obtain rfl := Option.some.inj hk
  rfl

theorem read?_brace : (start ('\x7b' :: rest)).read? = some (afterBrace rest) := by
  have hfresh : (start ('\x7b' :: rest)).Fresh :=
    fresh_of_reach (fun _ h => by cases h) fun _ h => by cases h
  have hclose : (start ('\x7b' :: rest)).close 0 = start ('\x7b' :: rest) :=
    close_of_le (by decide : (-1 : Int) ≤ 0)
  rw [read?_cons rfl (begins_cons.2 (by decide)) hfresh hclose, readAt?_open rfl]
  rfl

theorem reads_brace : Reads 1 (start ('\x7b' :: rest)) (afterBrace rest) :=
  .single rfl (fresh_of_reach (fun _ h => by cases h) fun _ h => by cases h) read?_brace
    (Nat.zero_lt_one)

/-- Outside all braces the text may end. -/
theorem finish_inBraces (ts : List Token) (hrest : c.rest = []) :
    ∃ t, Reads 1 (inBraces ts 0 false c) t ∧ Finished t (ts ++ [.streamEnd]) := by
  have hclose : ∀ column : Int, -1 ≤ column →
      (inBraces ts 0 false c).close column = inBraces ts 0 false c := fun _ h => close_of_le h
  obtain ⟨t, hend, hfinished⟩ := readEnd?_of_none (s := inBraces ts 0 false c) rfl rfl
  rw [hclose (-1) (Int.le_refl _)] at hfinished
  have hread := (read?_nil hrest fresh_inBraces (hclose c.column (by omega))).trans hend
  refine ⟨t, .single rfl fresh_inBraces hread ?_, hfinished⟩
  rw [hfinished.tokens]
  simp [inBraces]

/-- On the next line the brace can no longer be a key. -/
theorem awaitsKey_afterBrace {d : Char} (h : Begins (d :: rest)) :
    AwaitsKey (afterBrace ('\n' :: (List.replicate m ' ' ++ d :: rest))) [.flowMappingStart] 0
      ('\n' :: (List.replicate m ' ' ++ d :: rest)) := by
  refine ⟨rfl, fresh_afterBrace, Nat.le_refl _, 1, 0, 1, read?_of_dropStale ?_⟩
  rw [skip_line h rfl, skip_line h rfl]
  rfl

theorem awaitsKey_fields {fs : List (String × Data)} (hfs : fs ≠ []) (level : Nat) :
    AwaitsKey (afterBrace ((Json.indentedFields level fs).toList ++ tail)) [.flowMappingStart] 0
      ((Json.indentedFields level fs).toList ++ tail) := by
  obtain ⟨⟨w, d⟩, fs, rfl⟩ := List.exists_cons_of_ne_nil hfs
  rw [toList_indentedFields, toList_quote]
  simp only [List.cons_append, List.append_assoc]
  exact awaitsKey_afterBrace (begins_cons.2 (by decide))

end Lexer

theorem allowed_indentedFields {fs : List (String × Data)} (hkeys : ∀ f ∈ fs, IsFlowKey f.1)
    {level : Nat}
    (hvalues : ∀ f ∈ fs, ∀ c ∈ (Json.indented level f.2).toList, isAllowed c = true) :
    ∀ c ∈ (Json.indentedFields level fs).toList, isAllowed c = true := by
  induction fs with
  | nil => simp [Json.indentedFields]
  | cons f fs ih =>
    obtain ⟨w, d⟩ := f
    obtain ⟨hw, hkeys⟩ := List.forall_mem_cons.1 hkeys
    obtain ⟨hvalue, hvalues⟩ := List.forall_mem_cons.1 hvalues
    intro c hc
    rw [toList_indentedFields] at hc
    simp only [List.mem_append, List.mem_cons] at hc
    rcases hc with rfl | hc | hc | rfl | rfl | hc | hc
    · rfl
    · rw [List.eq_of_mem_replicate hc]
      rfl
    · exact allowed_quote hw.text c hc
    · rfl
    · rfl
    · exact hvalue c hc
    · split at hc
      · cases hc
      · rcases List.mem_cons.1 hc with rfl | hc
        · rfl
        · exact ih hkeys hvalues c hc

theorem allowed_indented {d : Data} (h : IsFlowTree d) :
    ∀ (level : Nat), ∀ c ∈ (Json.indented level d).toList, isAllowed c = true := by
  induction h with
  | text hw => exact fun _ => allowed_quote hw
  | record hfs hkeys _ ih =>
    intro level c hc
    rw [toList_indented_record hfs] at hc
    simp only [List.mem_append, List.mem_cons, List.not_mem_nil, or_false] at hc
    rcases hc with rfl | hc | rfl | hc | rfl
    · rfl
    · exact allowed_indentedFields hkeys (fun f hf => ih f hf (level + 1)) c hc
    · rfl
    · rw [List.eq_of_mem_replicate hc]
      rfl
    · rfl

theorem length_fieldTokens_braces_le {fs : List (String × Data)} {level : Nat}
    (hvalues : ∀ f ∈ fs,
      (Layout.braces.tokens f.2).length ≤ (Json.indented level f.2).toList.length) :
    (Layout.braces.fieldTokens true fs).length ≤ (Json.indentedFields level fs).toList.length := by
  induction fs with
  | nil => simp [Layout.fieldTokens]
  | cons f fs ih =>
    obtain ⟨w, d⟩ := f
    obtain ⟨hvalue, hvalues⟩ := List.forall_mem_cons.1 hvalues
    have ih := ih hvalues
    rw [toList_indentedFields, Lexer.toList_quote]
    cases fs with
    | nil =>
      simp only [Layout.fieldTokens, List.length_append, List.length_cons, List.length_nil,
        if_true] at hvalue ⊢
      omega
    | cons f fs =>
      rw [fieldTokens_braces]
      simp only [List.isEmpty_cons, Bool.false_eq_true, if_false, List.length_append,
        List.length_cons, List.length_nil] at hvalue ih ⊢
      omega

theorem length_tokens_braces_le {d : Data} (h : IsFlowTree d) :
    ∀ level, (Layout.braces.tokens d).length ≤ (Json.indented level d).toList.length := by
  induction h with
  | text =>
    intro level
    simp [Layout.tokens, Json.indented, Lexer.toList_quote]
  | record hfs hkeys _ ih =>
    intro level
    have hfields := length_fieldTokens_braces_le fun f hf => ih f hf (level + 1)
    rw [toList_indented_record hfs]
    simp only [Layout.tokens, List.length_append, List.length_cons, List.length_nil,
      List.length_replicate]
    omega

/-- **JSON text reads as the tree that was written.** -/
theorem ofText_pretty {fs : List (String × Data)} (h : IsFlowTree (.record fs)) :
    Document.ofText (Json.pretty (.record fs)) = Layout.braces.document (.record fs) := by
  refine Layout.braces.ofText_tokens h ?_
  have hallowed := allowed_indented h 0
  have hlength := length_tokens_braces_le h 0
  cases h with
  | record hfs hkeys htrees =>
  rw [toList_indented_record hfs, List.replicate_zero, List.nil_append] at hallowed hlength
  rw [Json.pretty, toList_indented_record hfs, List.replicate_zero, List.nil_append]
  have hawaits : Lexer.AwaitsKey _ [.flowMappingStart] 0
      ((Json.indentedFields 1 fs).toList ++ ['\n', '\x7d']) := Lexer.awaitsKey_fields hfs 1
  obtain ⟨j, ⟨_, i, l, k⟩, hrest, hread⟩ := hawaits.fields hfs hkeys
    (fun f hf => Lexer.reads_flow (htrees f hf)) (by decide)
  subst hrest
  obtain ⟨u, hlast, hfinished⟩ := Lexer.finish_inBraces (c := ⟨[], i + 1 + 0 + 1, l + 1, 0 + 1⟩)
    ([.flowMappingStart] ++ Layout.braces.fieldTokens true fs ++ [.flowMappingEnd]) rfl
  have hall := ((Lexer.reads_brace.trans hread).trans (Lexer.reads_close (m := 0))).trans hlast
  have htokens : [.flowMappingStart] ++ Layout.braces.fieldTokens true fs ++ [.flowMappingEnd]
      = Layout.braces.tokens (.record fs) := by
    simp [Layout.tokens, Layout.braces]
  rw [htokens] at hfinished
  exact Lexer.ofText_of_finished hallowed (fun c hc => by cases hc; rfl) hall hfinished (by
    rw [List.length_append, List.length_singleton]
    omega)

end RegistryFleet.Yaml
