import DataGrid.Grid.Display
import DataGrid.Proofs.CanonicalPaths

/-!
# Printed cells

The engine reads a field of a row along a path: the expression is cut at its dots, each segment is
trimmed, and the segments lead through objects only. The table cuts the expression as it stands at
its dots and slashes, takes the runs as the tokens of a pointer, and follows it through objects and
lists. The tokens name the segments exactly where the expression is literal; the two readings then
part only where a segment behind the first one is a position in a list.
-/

namespace DataGrid

open Text

/-! ## Pieces cut once more -/

namespace Text

theorem length_pieces_pos (sep : Char) (run : List Char) : 0 < (pieces sep run).length :=
  List.length_pos_iff.2 (pieces_ne_nil sep run)

/-- A second cut makes more runs unless there is nothing to cut. -/
theorem length_flatMap_pieces (sep : Char) (runs : List (List Char)) :
    runs.length ≤ (runs.flatMap (pieces sep)).length ∧
      ((runs.flatMap (pieces sep)).length = runs.length → ∀ run ∈ runs, sep ∉ run) := by
  induction runs with
  | nil => exact ⟨Nat.le_refl 0, fun _ run hrun => by cases hrun⟩
  | cons run runs ih =>
    obtain ⟨hle, heq⟩ := ih
    have hpos := length_pieces_pos sep run
    rw [List.flatMap_cons, List.length_append, List.length_cons]
    refine ⟨by omega, fun h => ?_⟩
    rw [List.forall_mem_cons]
    refine ⟨fun hmem => ?_, heq (by omega)⟩
    obtain ⟨before, after, rfl⟩ := List.append_of_mem hmem
    rw [pieces_append_separator, List.length_append] at h
    have hbefore := length_pieces_pos sep before
    have hafter := length_pieces_pos sep after
    omega

theorem flatMap_pieces_of_not_mem {sep : Char} {runs : List (List Char)}
    (h : ∀ run ∈ runs, sep ∉ run) : runs.flatMap (pieces sep) = runs := by
  induction runs with
  | nil => rfl
  | cons run runs ih =>
    rw [List.forall_mem_cons] at h
    rw [List.flatMap_cons, pieces_of_not_mem h.1, ih h.2]
    rfl

end Text

namespace Json

/-! ## Escapes of a token -/

theorem length_unescapeToken_le (s : List Char) : (unescapeToken s).length ≤ s.length := by
  fun_induction unescapeToken s with
  | case1 rest ih | case2 rest ih => exact Nat.le_succ_of_le (Nat.succ_le_succ ih)
  | case3 c rest h1 h0 ih => exact Nat.succ_le_succ ih
  | case4 => exact Nat.le_refl 0

/-- A token denotes itself exactly if it holds no escape. -/
theorem unescapeToken_eq_self_iff (s : List Char) :
    unescapeToken s = s ↔ ¬ ['~', '0'] <:+: s ∧ ¬ ['~', '1'] <:+: s := by
  fun_induction unescapeToken s with
  | case1 rest ih =>
    refine iff_of_false (fun h => ?_) fun ⟨_, h⟩ => h (List.prefix_append _ rest).isInfix
    exact absurd (List.cons.inj h).1 (by decide)
  | case2 rest ih =>
    refine iff_of_false (fun h => ?_) fun ⟨h, _⟩ => h (List.prefix_append _ rest).isInfix
    have hlength := congrArg List.length (List.cons.inj h).2
    have hle := length_unescapeToken_le rest
    rw [List.length_cons] at hlength
    omega
  | case3 c rest h1 h0 ih =>
    have hprefix : ∀ d, (c = '~' → ∀ tail, rest = d :: tail → False) →
        ¬ ['~', d] <+: c :: rest := by
      rintro d hd ⟨tail, htail⟩
      obtain ⟨hc, hrest⟩ := List.cons.inj htail
      exact hd hc.symm tail hrest.symm
    have hzero := hprefix '0' fun hc tail hrest => h0 tail hc hrest
    have hone := hprefix '1' fun hc tail hrest => h1 tail hc hrest
    rw [List.cons_inj_right, ih, List.infix_cons_iff, List.infix_cons_iff]
    simp only [hzero, hone, false_or]
  | case4 => exact iff_of_true rfl ⟨by decide, by decide⟩

theorem unescapeToken_cons {c : Char} (hc : c ≠ '~') (rest : List Char) :
    unescapeToken (c :: rest) = c :: unescapeToken rest := by
  rw [unescapeToken]
  · exact fun _ h _ => hc h
  · exact fun _ h _ => hc h

theorem unescapeToken_concat {c : Char} (h0 : c ≠ '0') (h1 : c ≠ '1') (s : List Char) :
    unescapeToken (s ++ [c]) = unescapeToken s ++ [c] := by
  fun_induction unescapeToken s with
  | case1 rest ih | case2 rest ih =>
    rw [List.cons_append, List.cons_append, unescapeToken, ih]
    rfl
  | case3 d rest hone hzero ih =>
    have hnext : ∀ e, e ≠ c → (∀ tail, d = '~' → rest = e :: tail → False) →
        ∀ tail, d = '~' → rest ++ [c] = e :: tail → False := by
      intro e he hrest tail hd htail
      cases rest with
      | nil => exact he (List.cons.inj htail).1.symm
      | cons f rest => exact hrest rest hd (by rw [(List.cons.inj htail).1])
    rw [List.cons_append, unescapeToken, ih]
    · rfl
    · exact hnext '1' h1.symm hone
    · exact hnext '0' h0.symm hzero
  | case4 =>
    rw [List.nil_append, unescapeToken]
    · rfl
    · exact fun tail _ htail => List.cons_ne_nil '1' tail htail.symm
    · exact fun tail _ htail => List.cons_ne_nil '0' tail htail.symm

/-- A blank at an end of a token is there also without the escapes. -/
theorem trim_eq_self_of_unescapeToken {s : List Char}
    (h : trim (unescapeToken s) = unescapeToken s) : trim s = s := by
  have hblank : ∀ c, isBlank c = true → c ≠ '~' ∧ c ≠ '0' ∧ c ≠ '1' := by
    intro c hc
    refine ⟨?_, ?_, ?_⟩ <;> rintro rfl <;> exact absurd hc (by decide)
  obtain ⟨hfirst, hlast⟩ := trim_eq_self_iff.1 h
  refine trim_eq_self_iff.2 ⟨fun c hc => Bool.eq_false_iff.2 fun hbad => ?_,
    fun c hc => Bool.eq_false_iff.2 fun hbad => ?_⟩
  · obtain ⟨rest, rfl⟩ := List.head?_eq_some_iff.1 hc
    rw [unescapeToken_cons (hblank c hbad).1] at hfirst
    exact Bool.eq_false_iff.1 (hfirst c rfl) hbad
  · obtain ⟨front, rfl⟩ := List.getLast?_eq_some_iff.1 hc
    rw [unescapeToken_concat (hblank c hbad).2.1 (hblank c hbad).2.2] at hlast
    exact Bool.eq_false_iff.1 (hlast c List.getLast?_concat) hbad

/-! ## The two readers -/

/-- The names that tokens denote. -/
def tokenNames (tokens : List (List Char)) : List String :=
  tokens.map fun token => String.ofList (unescapeToken token)

/-- A pointer leads where the path of the names does, or else the path ends at a list that holds the
position of the next token. -/
theorem atTokens?_cases (v : Json) (tokens : List (List Char)) :
    atTokens? v tokens = descend v (tokenNames tokens) ∨
      descend v (tokenNames tokens) = none ∧ ∃ before token after items i,
        tokens = before ++ token :: after ∧
        descend v (tokenNames before) = some (array items) ∧
        position? (unescapeToken token) = some i ∧ i < items.length := by
  induction tokens generalizing v with
  | nil => exact .inl rfl
  | cons token rest ih =>
    cases v with
    | object fields =>
      show (Record.get? fields (String.ofList (unescapeToken token))).bind _ =
        (Record.get? fields (String.ofList (unescapeToken token))).bind _ ∨
        (Record.get? fields (String.ofList (unescapeToken token))).bind _ = none ∧ _
      cases hfield : Record.get? fields (String.ofList (unescapeToken token)) with
      | none => exact .inl rfl
      | some w =>
        rcases ih w with hsame | ⟨hnone, before, next, after, items, i, rfl, hlist, hi⟩
        · exact .inl hsame
        · refine .inr ⟨hnone, token :: before, next, after, items, i, rfl, ?_, hi⟩
          show (Record.get? fields (String.ofList (unescapeToken token))).bind _ = _
          rw [hfield]
          exact hlist
    | array items =>
      show ((position? (unescapeToken token)).bind (items[·]?)).bind _ = none ∨ none = none ∧ _
      cases hposition : position? (unescapeToken token) with
      | none => exact .inl rfl
      | some i =>
        rcases Nat.lt_or_ge i items.length with hi | hi
        · exact .inr ⟨rfl, [], token, rest, items, i, rfl, rfl, hposition, hi⟩
        · refine .inl ?_
          rw [Option.bind_some, List.getElem?_eq_none hi, Option.bind_none]
    | _ => exact .inl rfl

/-! ## Rows that tell the readers apart -/

/-- Objects of one field each, one in the other, around a value. -/
def nest (names : List String) (v : Json) : Json :=
  names.foldr (fun name inner => object [(name, inner)]) v

theorem get?_singleton (name other : String) (v : Json) :
    Record.get? [(name, v)] other = if other = name then some v else none := by
  unfold Record.get?
  rw [List.lookup_cons]
  split <;> simp_all

theorem descend_nest (names rest : List String) (v : Json) :
    descend (nest names v) (names ++ rest) = descend v rest := by
  induction names with
  | nil => rfl
  | cons name names ih =>
    show (Record.get? [(name, nest names v)] name).bind _ = _
    rw [get?_singleton, if_pos rfl]
    exact ih

theorem atTokens?_nest (tokens rest : List (List Char)) (v : Json) :
    atTokens? (nest (tokenNames tokens) v) (tokens ++ rest) = atTokens? v rest := by
  induction tokens with
  | nil => rfl
  | cons token tokens ih =>
    show (Record.get? [(String.ofList (unescapeToken token), nest (tokenNames tokens) v)]
      (String.ofList (unescapeToken token))).bind _ = _
    rw [get?_singleton, if_pos rfl]
    exact ih

/-- A pointer into nested objects ends at the string, if its tokens name the way to it, or else
at one of the objects or nowhere. -/
theorem atTokens?_nest_string (names : List String) (text : String) (tokens : List (List Char)) :
    tokenNames tokens = names ∨ atTokens? (nest names (string text)) tokens = none ∨
      ∃ fields, atTokens? (nest names (string text)) tokens = some (object fields) := by
  induction names generalizing tokens with
  | nil =>
    cases tokens with
    | nil => exact .inl rfl
    | cons token tokens => exact .inr (.inl rfl)
  | cons name names ih =>
    cases tokens with
    | nil => exact .inr (.inr ⟨_, rfl⟩)
    | cons token tokens =>
      show String.ofList (unescapeToken token) :: tokenNames tokens = name :: names ∨
        (Record.get? [(name, nest names (string text))] (String.ofList (unescapeToken token))).bind
          _ = none ∨
        ∃ fields, (Record.get? [(name, nest names (string text))]
          (String.ofList (unescapeToken token))).bind _ = some (object fields)
      rw [get?_singleton]
      by_cases hname : String.ofList (unescapeToken token) = name
      · rw [if_pos hname, hname, List.cons_inj_right]
        exact ih tokens
      · rw [if_neg hname]
        exact .inr (.inl rfl)

/-- A list that has a value at a position, and nothing else. -/
def listed (i : Nat) (v : Json) : Json := array (List.replicate i null ++ [v])

/-- Where a token is a position, a list lets the pointer through and ends the path. -/
theorem through_list {token : List Char} {i : Nat} (hi : position? (unescapeToken token) = some i)
    (before after : List (List Char)) (v : Json) :
    atTokens? (nest (tokenNames before) (listed i (nest (tokenNames after) v)))
        (before ++ token :: after) = some v ∧
      descend (nest (tokenNames before) (listed i (nest (tokenNames after) v)))
        (tokenNames (before ++ token :: after)) = none := by
  constructor
  · rw [atTokens?_nest]
    show ((position? (unescapeToken token)).bind
      ((List.replicate i null ++ [nest (tokenNames after) v])[·]?)).bind _ = _
    rw [hi, Option.bind_some, List.getElem?_append_right (by rw [List.length_replicate]),
      List.length_replicate, Nat.sub_self]
    have hrest := atTokens?_nest after [] v
    rw [List.append_nil] at hrest
    exact hrest
  · unfold tokenNames
    rw [List.map_append, descend_nest]
    rfl

end Json

/-! ## Literal expressions -/

namespace Path

/-- No part of the expression between dots has a blank at an end, a slash, or what would be an
escape. -/
def Literal (expression : String) : Prop :=
  ∀ run ∈ pieces '.' expression.toList,
    trim run = run ∧ '/' ∉ run ∧ ¬ ['~', '0'] <:+: run ∧ ¬ ['~', '1'] <:+: run

/-- The tokens of the pointer that the table makes of an expression. -/
def tokens (expression : String) : List (List Char) :=
  (pieces '.' expression.toList).flatMap (pieces '/')

variable {e : String} {p : Path}

/-- The table follows the names of the path exactly if the expression is literal. -/
theorem tokenNames_tokens_iff (h : parse? e = some p) :
    Json.tokenNames (tokens e) = p.segments ↔ Literal e := by
  rw [segments_of_parse? h]
  unfold Json.tokenNames tokens
  constructor
  · intro heq
    -- There are as many tokens as segments, so no run holds a slash.
    have hlength := congrArg List.length heq
    rw [List.length_map, List.length_map] at hlength
    have hslash := (length_flatMap_pieces '/' (pieces '.' e.toList)).2 hlength
    rw [flatMap_pieces_of_not_mem hslash, List.map_inj_left] at heq
    intro run hrun
    -- A blank at an end of the run would be left in the token and not in the segment.
    have hunescaped : Json.unescapeToken run = trim run := String.ofList_injective (heq run hrun)
    have htrim : trim run = run := by
      refine Json.trim_eq_self_of_unescapeToken ?_
      rw [hunescaped, trim_trim]
    rw [htrim, Json.unescapeToken_eq_self_iff] at hunescaped
    exact ⟨htrim, hslash run hrun, hunescaped⟩
  · intro hliteral
    rw [flatMap_pieces_of_not_mem fun run hrun => (hliteral run hrun).2.1, List.map_inj_left]
    intro run hrun
    obtain ⟨htrim, -, hescapes⟩ := hliteral run hrun
    rw [htrim, (Json.unescapeToken_eq_self_iff run).2 hescapes]

end Path

/-! ## The cell of an expression -/

theorem Json.compact_object (fields : Record) : (object fields).compact =
    "\x7b" ++ ",".intercalate (compactFields fields) ++ "\x7d" := by
  rw [compact]
  rfl

theorem cellText_object_ne (fields : Record) : cellText (some (.object fields)) ≠ ['x'] := by
  show (Json.object fields).compact.toList ≠ ['x']
  rw [Json.compact_object, String.toList_append, String.toList_append]
  intro h
  exact absurd (List.cons.inj h).1 (by decide)

namespace Record

theorem lookup?_eq_descend (row : Record) {path : List String} (h : path ≠ []) :
    row.lookup? path = Json.descend (.object row) path := by
  cases path with
  | nil => exact absurd rfl h
  | cons name rest => rfl

variable {e : String} {p : Path}

/-- The table shows a value other than the one the engine reads only where the engine reads
nothing, since its path ends at a list. -/
theorem cell?_of_literal (h : Path.parse? e = some p) (hliteral : Path.Literal e) (row : Record) :
    row.cell? e = row.lookup? p.segments ∨
      row.lookup? p.segments = none ∧ ∃ before name after items i,
        p.segments = before ++ name :: after ∧ row.lookup? before = some (.array items) ∧
        Json.position? name.toList = some i ∧ i < items.length := by
  have hnames := (Path.tokenNames_tokens_iff h).2 hliteral
  rw [row.lookup?_eq_descend (Path.segments_ne_nil h), ← hnames]
  rcases Json.atTokens?_cases (.object row) (Path.tokens e) with
    hsame | ⟨hnone, before, token, after, items, i, htokens, hlist, hposition, hi⟩
  · exact .inl hsame
  · refine .inr ⟨hnone, Json.tokenNames before, String.ofList (Json.unescapeToken token),
      Json.tokenNames after, items, i, ?_, ?_, ?_, hi⟩
    · rw [htokens]
      exact List.map_append
    · rw [row.lookup?_eq_descend, hlist]
      intro hnil
      rw [hnil] at hlist
      cases Option.some.inj hlist
    · rw [String.toList_ofList]
      exact hposition

/-- An expression is literal if its cells show what the engine reads for every row. -/
theorem literal_of_cell? (h : Path.parse? e = some p)
    (hall : ∀ row : Record, cellText (row.cell? e) = cellText (row.lookup? p.segments)) :
    Path.Literal e := by
  rw [← Path.tokenNames_tokens_iff h]
  have hne := Path.segments_ne_nil h
  -- In this row the path alone leads to a string.
  obtain ⟨row, hrow⟩ : ∃ row : Record, Json.nest p.segments (.string "x") = .object row := by
    cases hp : p.segments with
    | nil => exact absurd hp hne
    | cons name rest => exact ⟨_, rfl⟩
  have hlookup : row.lookup? p.segments = some (.string "x") := by
    have hnest := Json.descend_nest p.segments [] (.string "x")
    rw [List.append_nil, hrow] at hnest
    rw [row.lookup?_eq_descend hne, hnest]
    rfl
  have htext : cellText (Json.atTokens? (.object row) (Path.tokens e)) = ['x'] := by
    refine (hall row).trans ?_
    rw [hlookup]
    rfl
  rcases Json.atTokens?_nest_string p.segments "x" (Path.tokens e) with
    hnames | hnone | ⟨fields, hfields⟩
  · exact hnames
  · rw [← hrow, hnone] at htext
    exact absurd htext (by decide)
  · rw [← hrow, hfields] at htext
    exact absurd htext (cellText_object_ne fields)

/-- None of its segments is then a position, but for the first one. -/
theorem position?_of_cell? (h : Path.parse? e = some p)
    (hall : ∀ row : Record, cellText (row.cell? e) = cellText (row.lookup? p.segments)) :
    ∀ name ∈ p.segments.tail, Json.position? name.toList = none := by
  intro name hmem
  refine Option.eq_none_iff_forall_ne_some.2 fun i hi => ?_
  obtain ⟨first, rest, hsegments⟩ := List.exists_cons_of_ne_nil (Path.segments_ne_nil h)
  rw [hsegments] at hmem
  obtain ⟨mid, after, rfl⟩ := List.append_of_mem (show name ∈ rest from hmem)
  have hnames := (Path.tokenNames_tokens_iff h).2 (literal_of_cell? h hall)
  have hsplit : Json.tokenNames (Path.tokens e) = (first :: mid) ++ name :: after :=
    hnames.trans hsegments
  obtain ⟨before, behind, htokens, hbefore, hbehind⟩ := List.map_eq_append_iff.1 hsplit
  obtain ⟨token, last, rfl, rfl, -⟩ := List.map_eq_cons_iff.1 hbehind
  rw [String.toList_ofList] at hi
  obtain ⟨hcell, hlookup⟩ := Json.through_list hi before last (.string "x")
  obtain ⟨row, hrow⟩ : ∃ row : Record, Json.nest (Json.tokenNames before)
      (.listed i (Json.nest (Json.tokenNames last) (.string "x"))) = .object row := by
    rw [show Json.tokenNames before = first :: mid from hbefore]
    exact ⟨_, rfl⟩
  rw [hrow, ← htokens] at hcell hlookup
  have htext : cellText (row.cell? e) = cellText (row.lookup? p.segments) := hall row
  rw [row.lookup?_eq_descend (Path.segments_ne_nil h), ← hnames, hlookup,
    show row.cell? e = some (.string "x") from hcell] at htext
  exact absurd htext (by decide)

/-- A slash in a name, and a list. -/
def teaRow : Record :=
  [("tags", .array [.string "green"]), ("unit/price", .number (.integer 5))]

end Record

end DataGrid
