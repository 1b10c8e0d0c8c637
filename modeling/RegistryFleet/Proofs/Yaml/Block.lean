import RegistryFleet.Proofs.Yaml.Lexer
import RegistryFleet.Proofs.Yaml.Literal
import RegistryFleet.Proofs.Yaml.Scalar
import RegistryFleet.Proofs.Yaml.Tree
import RegistryFleet.Yaml.Writer

/-!
# Proofs/Yaml/Block — a block document reads as the tree that was written

A value ends its line, and whatever stands in the next line is indented less or as much. So between
two fields the lexer stands at the beginning of a line, where the blocks that reach further right
are still to be ended.

* `Lexer.Stands` — the lexer stands at the beginning of a line.
* `Lexer.Stands.key` — how a key is read there, and `Lexer.reads_text` a value behind it.
* `ofText_document` — the document of a tree of texts.
-/

namespace RegistryFleet.Yaml

theorem ended_of_last {ws : List Char} (h : ∀ c ∈ ws.getLast?, isBreak c = false) :
    ended ws = ws ++ ['\n'] := by
  rw [ended, if_neg]
  cases hlast : ws.getLast? with
  | none => simp
  | some c => simp [h c hlast]

theorem toList_endLine (s : String) : (endLine s).toList = ended s.toList := by
  unfold endLine ended
  split
  · rfl
  · rw [String.toList_append]
    rfl

/-! ## Keys -/

namespace Lexer

/-- Inside blocks, where no key is possible yet. -/
def inBlock (ts : List Token) (n : Int) (outer : List Int) (keyAllowed : Bool) (c : Cursor) :
    Lexer :=
  ⟨c, ts, n, outer, none, [], keyAllowed, false⟩

variable {s : Lexer} {ts : List Token} {n q : Int} {outer : List Int} {keyAllowed : Bool}
  {c : Cursor} {rest tail : List Char} {m i l k : Nat}

theorem fresh_inBlock : (inBlock ts n outer keyAllowed c).Fresh :=
  fresh_of_reach (fun _ h => by cases h) fun _ h => by cases h

theorem close_inBlock {column : Int} (h : n ≤ column) :
    (inBlock ts n outer keyAllowed c).close column = inBlock ts n outer keyAllowed c :=
  close_of_le h

/-- **The lexer stands at the beginning of a line** of the text that is left, in the column `m`:
it reads as if it had nothing to skip, and had ended blocks that end there. -/
structure Stands (s : Lexer) (ts : List Token) (n : Int) (outer : List Int) (m : Nat)
    (rest : List Char) : Prop where
  ended : s.ended = false
  fresh : s.Fresh
  tokens : s.tokens.length ≤ ts.length
  begins : Begins rest
  reads : ∃ i l, s.read? = (inBlock ts n outer true ⟨rest, i, l, m⟩).read?

/-- A block further right ends. -/
theorem Stands.close (h : Stands s ts n (q :: outer) m rest) (hm : (m : Int) < n) :
    Stands s (ts ++ [.blockEnd]) q outer m rest := by
  obtain ⟨hended, hfresh, htokens, hbegins, i, l, hreads⟩ := h
  refine ⟨hended, hfresh, ?_, hbegins, i, l, ?_⟩
  · rw [List.length_append]
    omega
  · have hclose : (inBlock ts n (q :: outer) true ⟨rest, i, l, m⟩).close m
        = (inBlock (ts ++ [.blockEnd]) q outer true ⟨rest, i, l, m⟩).close m := by
      simp only [Lexer.close, inBlock, inFlow, closeTo, if_pos (show n > m from hm)]
      simp [List.replicate_succ]
    rw [hreads, read?, read?, skip_begins hbegins, skip_begins hbegins, fresh_inBlock,
      fresh_inBlock]
    simp only [Option.bind_eq_bind, Option.bind_some]
    rw [show (inBlock ts n (q :: outer) true ⟨rest, i, l, m⟩).cursor.column = m from rfl, hclose]
    rfl

/-- The mark of a block that a key opens. -/
def opened (q : Int) (m : Nat) : List Token := if q < m then [.blockMappingStart] else []

/-- The blocks around a key. -/
def around (q : Int) (outer : List Int) (m : Nat) : List Int :=
  if q < m then q :: outer else outer

/-- Between a key, which may be one, and its colon. -/
def atColon (ts : List Token) (q : Int) (outer : List Int) (w : String) (c : Cursor)
    (next : Cursor) : Lexer :=
  ⟨next, ts ++ [.scalar w true], q, outer,
    some ⟨q == (c.column : Int), ts.length, c.line, c.index, c.column⟩, [], false, false⟩

theorem fresh_atColon {w : String} {next : Cursor} (hline : next.line = c.line)
    (hindex : next.index ≤ c.index + PossibleKey.reach) : (atColon ts q outer w c next).Fresh := by
  refine fresh_of_reach (fun k hk => ?_) fun _ h => by cases h
  obtain rfl := Option.some.inj hk
  exact Bool.or_eq_false_iff.2 ⟨decide_eq_false (by simp only [atColon]; omega),
    decide_eq_false (by simp only [atColon]; omega)⟩

theorem read?_key {w : String} {d : Char} (hbegins : Begins (w.toList ++ ':' :: d :: tail))
    (hq : q ≤ m) (hw : PlainText w.toList) (hd : isBlankOrBreak d = true) :
    (inBlock ts q outer true ⟨w.toList ++ ':' :: d :: tail, i, l, m⟩).read?
      = some (atColon ts q outer w ⟨w.toList ++ ':' :: d :: tail, i, l, m⟩
          ⟨':' :: d :: tail, i + w.toList.length, l, m + w.toList.length⟩) := by
  have hplain : Lexeme.plain? false (q + 1).toNat ⟨w.toList ++ ':' :: d :: tail, i, l, m⟩ = _ :=
    plain?_key hw hd (by omega)
  have hmarker : (⟨w.toList ++ ':' :: d :: tail, i, l, m⟩ : Cursor).seesDocumentMarker = false :=
    hw.seesDocumentMarker
  obtain ⟨a, cs, hcs⟩ := List.exists_cons_of_ne_nil hw.ne_nil
  have hrest : w.toList ++ ':' :: d :: tail = a :: (cs ++ ':' :: d :: tail) := by
    rw [hcs, List.cons_append]
  rw [hrest] at hbegins
  rw [hcs] at hw
  have hat : (inBlock ts q outer true ⟨w.toList ++ ':' :: d :: tail, i, l, m⟩).read?
      = (inBlock ts q outer true ⟨w.toList ++ ':' :: d :: tail, i, l, m⟩).readPlain? :=
    (read?_cons hrest hbegins fresh_inBlock (close_inBlock hq)).trans
      (readAt?_plain hw hrest rfl hmarker)
  rw [hat, readPlain?, noteKey?]
  simp only [inBlock, if_true, giveUp?, Option.any_none, Bool.false_eq_true, if_false, inFlow,
    List.isEmpty_nil, Bool.not_true, Bool.not_false, Bool.true_and, Option.bind_eq_bind,
    Option.bind_some, Option.pure_def, hplain, String.ofList_toList]
  rfl

theorem read?_colon {w : String} {d : Char} {c : Cursor} (hd : isBlankOrBreak d = true)
    (hcolumn : q ≤ c.column) (hk : c.column ≤ k)
    (hfresh : (atColon ts q outer w c ⟨':' :: d :: tail, i, l, k⟩).Fresh) :
    (atColon ts q outer w c ⟨':' :: d :: tail, i, l, k⟩).read?
      = some (inBlock (ts ++ opened q c.column ++ [.key, .scalar w true, .value]) c.column
          (around q outer c.column) false ⟨d :: tail, i + 1, l, k + 1⟩) := by
  have hclose : (atColon ts q outer w c ⟨':' :: d :: tail, i, l, k⟩).close k
      = atColon ts q outer w c ⟨':' :: d :: tail, i, l, k⟩ :=
    close_of_le (show q ≤ (k : Int) by omega)
  have halone : (⟨':' :: d :: tail, i, l, k⟩ : Cursor).endsWordAt 1 = true := hd
  rw [read?_cons rfl (begins_cons.2 (by decide)) hfresh hclose,
    readAt?_colon rfl (Bool.or_eq_true_iff.2 (.inr halone))]
  have hfront : (ts ++ [Token.scalar w true]).take ts.length = ts := List.take_left
  have hback : (ts ++ [Token.scalar w true]).drop ts.length = [.scalar w true] := List.drop_left
  simp only [readColon?, atColon, emitAt, hfront, hback, openBlock, inFlow, List.isEmpty_nil,
    Bool.not_true, Bool.not_false, Bool.true_and, decide_eq_true_eq, opened, around]
  by_cases hopen : q < c.column
  · simp [hopen, mark, emit, inBlock, Cursor.advance]
  · have hq : q = c.column := by omega
    simp [mark, emit, inBlock, Cursor.advance, hq]

/-- **A key** and its colon. -/
theorem Stands.key {w : String} {d : Char}
    (h : Stands s ts q outer m (w.toList ++ ':' :: d :: tail)) (hq : q ≤ m)
    (hw : PlainText w.toList) (hreach : w.toList.length ≤ PossibleKey.reach)
    (hd : isBlankOrBreak d = true) : ∃ i l,
    Reads 2 s (inBlock (ts ++ opened q m ++ [.key, .scalar w true, .value]) m (around q outer m)
      false ⟨d :: tail, i, l, m + w.toList.length + 1⟩) := by
  obtain ⟨hended, hfresh, htokens, hbegins, i, l, hreads⟩ := h
  have hcolon : (atColon ts q outer w ⟨w.toList ++ ':' :: d :: tail, i, l, m⟩
      ⟨':' :: d :: tail, i + w.toList.length, l, m + w.toList.length⟩).Fresh :=
    fresh_atColon rfl (by simp only; omega)
  refine ⟨_, _, .trans (.single hended hfresh (hreads.trans (read?_key hbegins hq hw hd)) ?_)
    (.single rfl hcolon (read?_colon hd hq (Nat.le_add_right _ _) hcolon) ?_)⟩
  · simp only [atColon, List.length_append, List.length_singleton]
    omega
  · simp only [atColon, inBlock, List.length_append, List.length_cons, List.length_nil]
    omega

/-! ## Values -/

/-- Behind its blank, a value is read from where it begins. -/
theorem read?_value {d : Char} (h : Begins (d :: rest)) (hk : n ≤ k) :
    (inBlock ts n outer false ⟨' ' :: d :: rest, i, l, k⟩).read?
      = (inBlock ts n outer false ⟨d :: rest, i + 1, l, k + 1⟩).readAt? d := by
  have hskip : (inBlock ts n outer false ⟨' ' :: d :: rest, i, l, k⟩).skip
      = inBlock ts n outer false ⟨d :: rest, i + 1, l, k + 1⟩ := skip_spaces (m := 1) h rfl
  have hbegins : (inBlock ts n outer false ⟨d :: rest, i + 1, l, k + 1⟩).skip
      = inBlock ts n outer false ⟨d :: rest, i + 1, l, k + 1⟩ := skip_begins h
  rw [read?_of_skip (hskip.trans hbegins.symm)]
  exact read?_cons rfl h fresh_inBlock (close_inBlock (show n ≤ ((k + 1 : Nat) : Int) by omega))

/-- The value has been read and its line is over. -/
theorem stands_inBlock (h : Begins tail) :
    Stands (inBlock ts n outer true ⟨tail, i, l, m⟩) ts n outer m tail :=
  ⟨rfl, fresh_inBlock, Nat.le_refl _, h, i, l, rfl⟩

/-- The value has been read up to the end of its line. -/
theorem stands_lineEnd (h : Begins tail)
    (hrest : c.rest = '\n' :: (List.replicate m ' ' ++ tail)) :
    Stands (inBlock ts n outer false c) ts n outer m tail := by
  obtain ⟨_, i, l, k⟩ := c
  subst hrest
  have hskip : (inBlock ts n outer false ⟨'\n' :: (List.replicate m ' ' ++ tail), i, l, k⟩).skip
      = inBlock ts n outer true ⟨tail, i + 1 + m, l + 1, m⟩ := skip_line h rfl
  have hbegins : (inBlock ts n outer true ⟨tail, i + 1 + m, l + 1, m⟩).skip
      = inBlock ts n outer true ⟨tail, i + 1 + m, l + 1, m⟩ := skip_begins h
  exact ⟨rfl, fresh_inBlock, Nat.le_refl _, h, _, _, read?_of_skip (hskip.trans hbegins.symm)⟩

/-- A value that is read in one step. -/
theorem reads_value {d : Char} {w : String} {plain : Bool} (h : Begins (d :: rest)) (hk : n ≤ k)
    {b : Bool} {next : Cursor}
    (hread : (inBlock ts n outer false ⟨d :: rest, i + 1, l, k + 1⟩).readAt? d
      = some (inBlock (ts ++ [.scalar w plain]) n outer b next))
    (hstands : Stands (inBlock (ts ++ [.scalar w plain]) n outer b next)
      (ts ++ [.scalar w plain]) n outer m tail) :
    ∃ t, Reads 1 (inBlock ts n outer false ⟨' ' :: d :: rest, i, l, k⟩) t
      ∧ Stands t (ts ++ [.scalar w plain]) n outer m tail := by
  refine ⟨_, .single rfl fresh_inBlock ((read?_value h hk).trans hread) ?_, hstands⟩
  simp [inBlock]

variable {w : String}

theorem reads_plain (hw : PlainText w.toList) (htail : Begins tail) (hn : 0 ≤ n) (hm : m ≤ n)
    (hk : n < k) : ∃ t, Reads 1 (inBlock ts n outer false
        ⟨' ' :: (w.toList ++ '\n' :: (List.replicate m ' ' ++ tail)), i, l, k⟩) t
      ∧ Stands t (ts ++ [.scalar w true]) n outer m tail := by
  have hplain : Lexeme.plain? false (n + 1).toNat
      ⟨w.toList ++ '\n' :: (List.replicate m ' ' ++ tail), i + 1, l, k + 1⟩ = _ :=
    plain?_line hw htail.solid (by omega) (by omega)
  obtain ⟨a, cs, hcs⟩ := List.exists_cons_of_ne_nil hw.ne_nil
  rw [hcs] at hplain hw ⊢
  have hbegins : Begins (a :: (cs ++ '\n' :: (List.replicate m ' ' ++ tail))) := begins_plain hw _
  have hat : (inBlock ts n outer false
        ⟨a :: (cs ++ '\n' :: (List.replicate m ' ' ++ tail)), i + 1, l, k + 1⟩).readAt? a
      = some (inBlock (ts ++ [.scalar w true]) n outer true
          ⟨tail, i + 1 + (a :: cs).length + 1 + m, l + 1, m⟩) := by
    refine (readAt?_plain hw rfl rfl (seesDocumentMarker_of_column (Nat.succ_ne_zero _))).trans ?_
    rw [readPlain?, noteKey?]
    simp only [inBlock, Bool.false_eq_true, if_false, inFlow, List.isEmpty_nil, Bool.not_true,
      Option.bind_eq_bind, Option.bind_some, Option.pure_def]
    rw [← List.cons_append, hplain]
    simp only [Option.bind_some, ← hcs, String.ofList_toList]
    rfl
  exact reads_value hbegins (by omega) hat (stands_inBlock htail)

theorem reads_quoted (single : Bool) {front : List Char} (htail : Begins tail) (hk : n < k)
    (hread : ∃ next, next.rest = '\n' :: (List.replicate m ' ' ++ tail) ∧ next.column ≠ 0
      ∧ Lexeme.quoted? single ⟨Lexeme.quoteMark single :: (front ++ [Lexeme.quoteMark single])
          ++ '\n' :: (List.replicate m ' ' ++ tail), i + 1, l, k + 1⟩ = some (w.toList, next)) :
    ∃ t, Reads 1 (inBlock ts n outer false
        ⟨' ' :: (Yaml.ended (Lexeme.quoteMark single :: (front ++ [Lexeme.quoteMark single]))
          ++ (List.replicate m ' ' ++ tail)), i, l, k⟩) t
      ∧ Stands t (ts ++ [.scalar w false]) n outer m tail := by
  obtain ⟨next, hrest, -, hquoted⟩ := hread
  have hended : Yaml.ended (Lexeme.quoteMark single :: (front ++ [Lexeme.quoteMark single]))
      = Lexeme.quoteMark single :: (front ++ [Lexeme.quoteMark single]) ++ ['\n'] := by
    refine ended_of_last fun c hc => ?_
    rw [← List.cons_append, List.getLast?_concat] at hc
    cases hc
    cases single <;> decide
  rw [hended, List.append_assoc]
  have hat : (inBlock ts n outer false ⟨Lexeme.quoteMark single
      :: (front ++ [Lexeme.quoteMark single] ++ '\n' :: (List.replicate m ' ' ++ tail)), i + 1, l,
        k + 1⟩).readAt? (Lexeme.quoteMark single)
      = some (inBlock (ts ++ [.scalar w false]) n outer false next) := by
    rw [readAt?_quote single rfl, readLexeme?, noteKey?]
    simp only [inBlock, Bool.false_eq_true, if_false, Option.bind_eq_bind, Option.bind_some]
    rw [← List.cons_append, hquoted]
    simp only [Option.map_some, Option.bind_some, String.ofList_toList]
    rfl
  refine reads_value ?_ (Int.le_of_lt hk) hat (stands_lineEnd htail hrest)
  cases single <;> exact begins_cons.2 (by decide)

theorem reads_literal {n : Nat} {written : List Char} (htail : Begins tail) (hk : n < k)
    (hwritten : written.head? = some '|')
    (hread : ∃ i' l', Lexeme.block? true n ⟨written, i + 1, l, k + 1⟩
      = some (w.toList, ⟨tail, i', l', m⟩)) :
    ∃ t, Reads 1 (inBlock ts n outer false ⟨' ' :: written, i, l, k⟩) t
      ∧ Stands t (ts ++ [.scalar w false]) n outer m tail := by
  obtain ⟨i', l', hblock⟩ := hread
  obtain ⟨more, rfl⟩ := List.head?_eq_some_iff.1 hwritten
  have hat : (inBlock ts n outer false ⟨'|' :: more, i + 1, l, k + 1⟩).readAt? '|'
      = some (inBlock (ts ++ [.scalar w false]) n outer true ⟨tail, i', l', m⟩) := by
    refine (readAt?_literal rfl rfl).trans ?_
    rw [readBlock?, giveUp?]
    simp only [inBlock, Option.any_none, Bool.false_eq_true, if_false, Option.bind_eq_bind,
      Option.bind_some, Option.pure_def, hblock, String.ofList_toList]
    rfl
  exact reads_value (begins_cons.2 (by decide)) (by omega) hat (stands_inBlock htail)

/-- **A text as a value**, in whichever style it is written. -/
theorem reads_text (w : String) {n m i l k : Nat} {ts : List Token} {outer : List Int}
    {tail : List Char} (htail : Begins tail) (hm : m ≤ n) (hk : n < k) :
    ∃ t, Reads 1 (inBlock ts n outer false ⟨' ' :: ((endLine (scalar (n + 2) false w)).toList
        ++ (List.replicate m ' ' ++ tail)), i, l, k⟩) t
      ∧ Stands t (ts ++ [.scalar w (styleOf false w == .plain)]) n outer m tail := by
  have hline : ('\n' :: (List.replicate m ' ' ++ tail)).head? ≠ some '\'' := by simp
  rw [toList_endLine, scalar, String.toList_ofList]
  cases hstyle : styleOf false w with
  | plain =>
    have hw := plainText_of_style hstyle
    simp only
    rw [ended_of_last fun c hc => hw.line c (List.mem_of_getLast? hc), List.append_assoc]
    exact reads_plain hw htail (Int.natCast_nonneg n) (by omega) (by omega)
  | single =>
    obtain ⟨hsingle, hlf⟩ := single_of_style hstyle
    have hread := quoted?_singleQuoted (i := i + 1) (l := l) (k := k + 1) hsingle hlf
      (Nat.succ_ne_zero (n + 1)) hline
    rw [singleQuoted_eq] at hread ⊢
    exact reads_quoted true htail (Int.ofNat_lt.2 hk) hread
  | double =>
    exact reads_quoted false htail (Int.ofNat_lt.2 hk) (quoted?_doubleQuoted w.toList hline)
  | literal =>
    obtain ⟨hne, hprint⟩ := literal_of_style hstyle
    have hhead : (Yaml.ended (literalBlock (n + 2) w.toList)
        ++ (List.replicate m ' ' ++ tail)).head? = some '|' := by
      unfold Yaml.ended
      split <;> rfl
    exact reads_literal htail hk hhead (block?_literalBlock hprint hne htail.solid hm)

/-! ## Trees -/

end Lexer

/-- **A text that can be a key** without quotes or a mark of its own. -/
structure IsKey (w : String) : Prop where
  plain : styleOf true w = .plain
  short : w.utf8ByteSize ≤ longestKey

theorem length_le_utf8ByteSize : ∀ cs : List Char, cs.length ≤ (String.ofList cs).utf8ByteSize
  | [] => Nat.zero_le _
  | c :: cs => by
      have ih := length_le_utf8ByteSize cs
      have hc := c.utf8Size_pos
      rw [String.ofList_cons, String.utf8ByteSize_append, String.utf8ByteSize_singleton,
        List.length_cons]
      omega

theorem IsKey.length_le {w : String} (h : IsKey w) : w.toList.length ≤ PossibleKey.reach := by
  have hlength := length_le_utf8ByteSize w.toList
  have hshort := h.short
  rw [String.ofList_toList] at hlength
  unfold longestKey at hshort
  unfold PossibleKey.reach
  omega

theorem IsKey.toList_keyLead {w : String} (h : IsKey w) (n : Nat) :
    (keyLead n w).toList = w.toList ++ [':'] := by
  have hshort := h.short
  rw [keyLead, if_neg (by omega), scalar, h.plain, String.ofList_toList, String.toList_append]
  rfl

/-- Trees that are written as blocks. -/
abbrev IsBlockTree (d : Data) : Prop := d.IsTree IsKey fun _ => True

/-- The layout of what is written as a block. -/
def blockLayout : Layout := .block fun key w => styleOf key w == .plain

/-- Nothing stands between the fields of a block. -/
theorem fieldTokens_block (first : Bool) {w : String} (hw : IsKey w) (d : Data)
    (rest : List (String × Data)) : blockLayout.fieldTokens first ((w, d) :: rest)
      = [.key, .scalar w true, .value] ++ (blockLayout.tokens d
          ++ blockLayout.fieldTokens true rest) := by
  have hfirst : blockLayout.fieldTokens false rest = blockLayout.fieldTokens true rest := by
    cases rest with
    | nil => rfl
    | cons f rest => rfl
  have hplain : blockLayout.plain true w = true := beq_iff_eq.2 hw.plain
  rw [Layout.fieldTokens, hfirst, hplain]
  cases first <;> rfl

theorem toList_fields {k : String} (hk : IsKey k) (n : Nat) (d : Data)
    (rest : List (String × Data)) : (fields n ((k, d) :: rest)).toList
      = k.toList ++ ':' :: ((value n d).toList
        ++ if rest.isEmpty then [] else List.replicate n ' ' ++ (fields n rest).toList) := by
  cases rest with
  | nil => simp [fields, hk.toList_keyLead]
  | cons f rest => simp [fields, hk.toList_keyLead, blanks, Lexer.toList_pushn]

theorem toList_value_text (n : Nat) (w : String) :
    (value n (.text w)).toList = ' ' :: (endLine (scalar (n + 2) false w)).toList := by
  simp [value, inline?]

theorem toList_value_record {fs : List (String × Data)} (h : fs ≠ []) (n : Nat) :
    (value n (.record fs)).toList
      = '\n' :: (List.replicate (n + 2) ' ' ++ (fields (n + 2) fs).toList) := by
  obtain ⟨f, fs, rfl⟩ := List.exists_cons_of_ne_nil h
  simp [value, blanks, Lexer.toList_pushn]

theorem begins_fields {fs : List (String × Data)} (hfs : fs ≠ []) (hkeys : ∀ f ∈ fs, IsKey f.1)
    (n : Nat) (tail : List Char) : Lexer.Begins ((fields n fs).toList ++ tail) := by
  obtain ⟨⟨k, d⟩, fs, rfl⟩ := List.exists_cons_of_ne_nil hfs
  have hk := hkeys _ List.mem_cons_self
  rw [toList_fields hk, List.append_assoc]
  exact Lexer.begins_plain (plainText_of_style hk.plain) _

theorem value_begins {d : Data} (h : IsBlockTree d) (n : Nat) :
    ∃ c cs, (value n d).toList = c :: cs ∧ isBlankOrBreak c = true := by
  cases h with
  | text => exact ⟨_, _, toList_value_text n _, rfl⟩
  | record hfs => exact ⟨_, _, toList_value_record hfs n, rfl⟩

namespace Lexer

/-- What is read of a value, from the colon in front of it to the line behind it. -/
def ReadsValue (d : Data) : Prop :=
  ∀ (ts : List Token) (outer : List Int) (n m i l k : Nat) (tail : List Char), Begins tail →
    m ≤ n → n < k → ∃ j t,
    Reads j (inBlock ts n outer false
      ⟨(value n d).toList ++ (List.replicate m ' ' ++ tail), i, l, k⟩) t
      ∧ Stands t (ts ++ blockLayout.tokens d) n outer m tail

/-- **Fields** are read one after another, the first of which may open their block. -/
theorem Stands.fields {fs : List (String × Data)} (hfs : fs ≠ []) (hkeys : ∀ f ∈ fs, IsKey f.1)
    (htrees : ∀ f ∈ fs, IsBlockTree f.2) (hvalues : ∀ f ∈ fs, ReadsValue f.2) :
    ∀ {s : Lexer} {ts : List Token} {q : Int} {outer : List Int} {n m : Nat} {tail : List Char},
    Stands s ts q outer n ((Yaml.fields n fs).toList ++ (List.replicate m ' ' ++ tail)) → q ≤ n →
    Begins tail → m ≤ n → ∃ j t, Reads j s t
      ∧ Stands t (ts ++ opened q n ++ blockLayout.fieldTokens true fs) n (around q outer n) m
          tail := by
  induction fs with
  | nil => exact absurd rfl hfs
  | cons f fs ih =>
    obtain ⟨w, d⟩ := f
    obtain ⟨hw, hkeys⟩ := List.forall_mem_cons.1 hkeys
    obtain ⟨htree, htrees⟩ := List.forall_mem_cons.1 htrees
    obtain ⟨hvalue, hvalues⟩ := List.forall_mem_cons.1 hvalues
    intro s ts q outer n m tail hstands hq htail hm
    obtain ⟨c, cs, hcs, hc⟩ := value_begins htree n
    rw [toList_fields hw, hcs, List.append_assoc, List.cons_append, List.cons_append,
      List.cons_append] at hstands
    obtain ⟨i, l, hkey⟩ := hstands.key hq (plainText_of_style hw.plain) hw.length_le hc
    rw [← List.cons_append, ← List.cons_append, ← hcs, List.append_assoc (value n d).toList] at hkey
    have hcolumn : n < n + w.toList.length + 1 := by omega
    rw [fieldTokens_block true hw]
    cases fs with
    | nil =>
      obtain ⟨j, t, hread, hnext⟩ := hvalue (ts ++ opened q n ++ [.key, .scalar w true, .value])
        (around q outer n) n m i l _ tail htail hm hcolumn
      refine ⟨_, t, hkey.trans hread, ?_⟩
      simpa [Layout.fieldTokens] using hnext
    | cons f fs =>
      have hbegins := begins_fields (List.cons_ne_nil f fs) hkeys n (List.replicate m ' ' ++ tail)
      obtain ⟨j, t, hread, hnext⟩ := hvalue (ts ++ opened q n ++ [.key, .scalar w true, .value])
        (around q outer n) n n i l _ _ hbegins (Nat.le_refl n) hcolumn
      obtain ⟨j', u, hmore, hlast⟩ := ih (List.cons_ne_nil f fs) hkeys htrees hvalues hnext
        (Int.le_refl _) htail hm
      rw [← List.append_assoc (List.replicate n ' ')] at hread
      refine ⟨_, u, (hkey.trans hread).trans hmore, ?_⟩
      simpa [opened, around] using hlast

/-- **A value is read** as the tokens of its tree. -/
theorem reads_tree {d : Data} (h : IsBlockTree d) : ReadsValue d := by
  induction h with
  | text =>
    intro ts outer n m i l k tail htail hm hk
    rw [toList_value_text]
    exact ⟨1, reads_text _ htail hm hk⟩
  | @record fs hfs hkeys htrees ih =>
    intro ts outer n m i l k tail htail hm hk
    have hbegins := begins_fields hfs hkeys (n + 2) (List.replicate m ' ' ++ tail)
    have hstands : Stands (inBlock ts n outer false ⟨(value n (.record fs)).toList
        ++ (List.replicate m ' ' ++ tail), i, l, k⟩) ts n outer (n + 2)
        ((Yaml.fields (n + 2) fs).toList ++ (List.replicate m ' ' ++ tail)) :=
      stands_lineEnd hbegins (by rw [toList_value_record hfs]; simp)
    obtain ⟨j, t, hread, hnext⟩ := hstands.fields hfs hkeys htrees ih (by omega) htail
      (Nat.le_add_right_of_le hm)
    refine ⟨j, t, hread, ?_⟩
    have hdeeper : (n : Int) < (n + 2 : Nat) := by omega
    rw [opened, around, if_pos hdeeper, if_pos hdeeper] at hnext
    simpa [Layout.tokens, blockLayout, Layout.block] using hnext.close (by omega)

end Lexer

/-! ## Documents -/

/-- The end of the text ends the last block. -/
theorem Lexer.Stands.finish {s : Lexer} {ts : List Token} (h : Lexer.Stands s ts 0 [-1] 0 []) :
    ∃ t, Lexer.Reads 1 s t ∧ Lexer.Finished t (ts ++ [.blockEnd] ++ [.streamEnd]) := by
  obtain ⟨hended, hfresh, htokens, -, i, l, hreads⟩ := h
  obtain ⟨t, hend, hfinished⟩ :
      ∃ t, (Lexer.inBlock ts 0 [-1] true ⟨[], i, l, 0⟩).readEnd? = some t
        ∧ Lexer.Finished t (ts ++ [.blockEnd] ++ [.streamEnd]) := Lexer.readEnd?_of_none rfl rfl
  have hread : s.read? = some t := by
    rw [hreads, ← hend]
    exact Lexer.read?_nil rfl Lexer.fresh_inBlock (Lexer.close_inBlock (Int.le_refl _))
  refine ⟨t, .single hended hfresh hread ?_, hfinished⟩
  rw [hfinished.tokens]
  simp only [List.length_append, List.length_singleton]
  omega

theorem printable_ended {ws : List Char} (h : ∀ c ∈ ws, isPrintable c = true) :
    ∀ c ∈ ended ws, isPrintable c = true := by
  unfold ended
  split
  · exact h
  · intro c hc
    rcases List.mem_append.1 hc with hc | hc
    · exact h c hc
    · rw [List.mem_singleton.1 hc]
      rfl

theorem printable_fields {fs : List (String × Data)} (hkeys : ∀ f ∈ fs, IsKey f.1) {n : Nat}
    (hvalues : ∀ f ∈ fs, ∀ c ∈ (value n f.2).toList, isPrintable c = true) :
    ∀ c ∈ (fields n fs).toList, isPrintable c = true := by
  induction fs with
  | nil => simp [fields]
  | cons f fs ih =>
    obtain ⟨w, d⟩ := f
    obtain ⟨hw, hkeys⟩ := List.forall_mem_cons.1 hkeys
    obtain ⟨hvalue, hvalues⟩ := List.forall_mem_cons.1 hvalues
    intro c hc
    rw [toList_fields hw] at hc
    simp only [List.mem_append, List.mem_cons] at hc
    rcases hc with hc | rfl | hc | hc
    · exact (plainText_of_style hw.plain).printable c hc
    · rfl
    · exact hvalue c hc
    · split at hc
      · cases hc
      · rcases List.mem_append.1 hc with hc | hc
        · rw [List.eq_of_mem_replicate hc]
          rfl
        · exact ih hkeys hvalues c hc

theorem printable_value {d : Data} (h : IsBlockTree d) :
    ∀ (n : Nat), ∀ c ∈ (value n d).toList, isPrintable c = true := by
  induction h with
  | text =>
    intro n
    rw [toList_value_text, toList_endLine]
    exact List.forall_mem_cons.2 ⟨rfl, printable_ended (printable_scalar _ _ _)⟩
  | record hfs hkeys _ ih =>
    intro n
    rw [toList_value_record hfs]
    refine List.forall_mem_cons.2 ⟨rfl, List.forall_mem_append.2 ⟨fun c hc => ?_, ?_⟩⟩
    · rw [List.eq_of_mem_replicate hc]
      rfl
    · exact printable_fields hkeys fun f hf => ih f hf (n + 2)

/-- Every character yields at most two tokens. -/
theorem length_fieldTokens_le {fs : List (String × Data)} (hkeys : ∀ f ∈ fs, IsKey f.1) {n : Nat}
    (hvalues : ∀ f ∈ fs, (blockLayout.tokens f.2).length ≤ 2 * (value n f.2).toList.length) :
    (blockLayout.fieldTokens true fs).length ≤ 2 * (fields n fs).toList.length := by
  induction fs with
  | nil => simp [Layout.fieldTokens]
  | cons f fs ih =>
    obtain ⟨w, d⟩ := f
    obtain ⟨hw, hkeys⟩ := List.forall_mem_cons.1 hkeys
    obtain ⟨hvalue, hvalues⟩ := List.forall_mem_cons.1 hvalues
    have ih := ih hkeys hvalues
    have hne := List.length_pos_iff.2 (plainText_of_style hw.plain).ne_nil
    rw [fieldTokens_block true hw, toList_fields hw]
    simp only [List.length_append, List.length_cons, List.length_nil] at hvalue hne ih ⊢
    cases fs with
    | nil =>
      simp only [Layout.fieldTokens, List.length_nil]
      omega
    | cons f fs =>
      simp only [List.isEmpty_cons, Bool.false_eq_true, if_false, List.length_append]
      omega

theorem length_tokens_le {d : Data} (h : IsBlockTree d) :
    ∀ n, (blockLayout.tokens d).length ≤ 2 * (value n d).toList.length := by
  induction h with
  | text =>
    intro n
    rw [toList_value_text]
    simp [Layout.tokens]
    omega
  | record hfs hkeys _ ih =>
    intro n
    have hfields := length_fieldTokens_le hkeys fun f hf => ih f hf (n + 2)
    rw [toList_value_record hfs]
    simp only [Layout.tokens, List.length_append, List.length_cons, List.length_nil,
      List.length_replicate]
    omega

/-- **A block document reads as the tree that was written.** -/
theorem ofText_document {fs : List (String × Data)} (h : IsBlockTree (.record fs)) :
    Document.ofText (document (.record fs)) = blockLayout.document (.record fs) := by
  refine blockLayout.ofText_tokens h ?_
  cases h with
  | record hfs hkeys htrees =>
  have hdocument : document (.record fs) = fields 0 fs := by
    obtain ⟨f, fs, rfl⟩ := List.exists_cons_of_ne_nil hfs
    rfl
  rw [hdocument]
  have hallowed : ∀ c ∈ (fields 0 fs).toList, isAllowed c = true := fun c hc =>
    isAllowed_of_isPrintable (printable_fields hkeys
      (fun f hf => printable_value (htrees f hf) 0) c hc)
  have hbegins : Lexer.Begins (fields 0 fs).toList := by
    simpa using begins_fields hfs hkeys 0 []
  have hstands : Lexer.Stands (Lexer.start (fields 0 fs).toList) [] (-1) [] 0
      ((fields 0 fs).toList ++ (List.replicate 0 ' ' ++ [])) := by
    rw [List.replicate_zero, List.append_nil, List.append_nil]
    exact Lexer.stands_inBlock hbegins
  obtain ⟨j, t, hread, hlast⟩ := hstands.fields hfs hkeys htrees
    (fun f hf => Lexer.reads_tree (htrees f hf)) (by decide) Lexer.begins_nil (Nat.le_refl 0)
  obtain ⟨u, hend, hfinished⟩ := hlast.finish
  have htokens : [] ++ Lexer.opened (-1) 0 ++ blockLayout.fieldTokens true fs ++ [.blockEnd]
      = blockLayout.tokens (.record fs) := by
    simp [Lexer.opened, Layout.tokens, blockLayout, Layout.block]
  rw [htokens] at hfinished
  have hlength := length_fieldTokens_le hkeys fun f hf => length_tokens_le (htrees f hf) 0
  exact Lexer.ofText_of_finished hallowed (fun c hc => (hbegins c hc).2.2) (hread.trans hend)
    hfinished (by
      simp only [Layout.tokens, List.length_append, List.length_cons, List.length_nil]
      omega)

end RegistryFleet.Yaml
