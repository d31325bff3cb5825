import DataGrid.Columns

/-!
# The sort state of a collection

A collection grows by adding columns and changes its sort state by sort requests. Whatever the
calls and their answers, the names stay distinct and in the order of the adds, and no two columns
are sorted. A refused call and a request for a column that cannot be sorted leave everything as it
was. Repeated activations of one column go round the directions of the sort mode, also where
another column was sorted before.
-/

namespace DataGrid

namespace Columns

/-- A call on a collection of columns. -/
inductive Call where
  | add (c : Column)
  | sortBy (name : String) (d : Option Direction)

/-- The error of a result, if it is one, and the columns from there on. -/
def settle (cs : Columns) : Except GridError Columns → Option GridError × Columns
  | .ok after => (none, after)
  | .error e => (some e, cs)

/-- The error that a call answers, if it is refused, and the columns after it. -/
def call (cs : Columns) : Call → Option GridError × Columns
  | .add c => cs.settle (cs.add c)
  | .sortBy name d => cs.settle (cs.sortBy name d)

/-- The collections that calls make of the empty one, each with the names of the successful adds
in their order. No column has a live direction when it is added. -/
inductive Reached : List String → Columns → Prop where
  | empty : Reached [] {}
  | add {names : List String} {cs : Columns} (h : Reached names cs) (c : Column)
    (hunsorted : c.direction = none) :
    Reached (if (cs.call (.add c)).1.isNone then names ++ [c.name] else names)
      (cs.call (.add c)).2
  | sortBy {names : List String} {cs : Columns} (h : Reached names cs) (name : String)
    (d : Option Direction) : Reached names (cs.call (.sortBy name d)).2

/-- The columns with the direction of the column of a name set and all others unsorted. -/
def directed (cs : Columns) (name : String) (d : Option Direction) : Columns :=
  cs.map fun c => c.setDirection (if c.name = name then d else none)

/-- Whether no two columns are sorted. -/
def SortedOnce (cs : Columns) : Prop :=
  cs.toList.Pairwise fun a b => ¬ (a.isSorted = true ∧ b.isSorted = true)

theorem contains_eq_true {cs : Columns} {name : String} :
    cs.contains name = true ↔ name ∈ cs.names := by
  unfold contains names
  simp [List.any_eq_true]

/-! ## Adding -/

theorem call_add_of_mem {cs : Columns} {c : Column} (h : c.name ∈ cs.names) :
    cs.call (.add c) = (some (.duplicateColumn c.name), cs) := by
  have hadd : cs.add c = .error (.duplicateColumn c.name) := by
    unfold add
    rw [if_pos (contains_eq_true.2 h)]
  exact congrArg cs.settle hadd

/-- A new column is put at the end. It is sorted only if no other one is. -/
theorem call_add_of_not_mem {cs : Columns} {c : Column} (h : c.name ∉ cs.names)
    (hunsorted : c.direction = none) :
    ∃ added : Column, cs.call (.add c) = (none, ⟨cs.toList ++ [added]⟩) ∧ added.name = c.name ∧
      (added.isSorted = true → cs.sorted? = none) := by
  have hnew : ¬ cs.contains c.name = true := fun hc => h (contains_eq_true.1 hc)
  have hc : ¬ c.isSorted = true := by
    unfold ColumnState.isSorted
    rw [hunsorted]
    exact Bool.false_ne_true
  show ∃ added : Column, cs.settle (cs.add c) = _ ∧ _
  unfold add
  rw [if_neg hnew]
  cases c.initialDirection with
  | none => exact ⟨c, rfl, rfl, fun hs => absurd hs hc⟩
  | some d =>
    dsimp only
    by_cases hfree : cs.sorted?.isNone = true
    · rw [if_pos hfree]
      exact ⟨c.setDirection (some d), rfl, rfl, fun _ => Option.isNone_iff_eq_none.1 hfree⟩
    · rw [if_neg hfree]
      exact ⟨c, rfl, rfl, fun hs => absurd hs hc⟩

/-! ## Sorting -/

theorem get?_eq_none {cs : Columns} {name : String} (h : name ∉ cs.names) :
    cs.get? name = none := by
  unfold get?
  rw [List.find?_eq_none]
  intro c hc hname
  exact h (List.mem_map.2 ⟨c, hc, of_decide_eq_true hname⟩)

/-- A column of distinctly named ones is found by its name. -/
theorem get?_of_mem {cs : Columns} (hdistinct : cs.names.Nodup) {c : Column} (hc : c ∈ cs.toList) :
    cs.get? c.name = some c := by
  obtain ⟨columns⟩ := cs
  unfold names at hdistinct
  show columns.find? (fun b => decide (b.name = c.name)) = some c
  induction columns with
  | nil => cases hc
  | cons b bs ih =>
    rw [List.map_cons, List.nodup_cons] at hdistinct
    rw [List.find?_cons]
    rcases List.mem_cons.1 hc with rfl | hc
    · simp
    · have hname : b.name ≠ c.name := by
        intro h
        exact hdistinct.1 (List.mem_map.2 ⟨c, hc, h.symm⟩)
      rw [decide_eq_false hname]
      exact ih hdistinct.2 hc

theorem call_sortBy_of_not_mem {cs : Columns} {name : String} (h : name ∉ cs.names)
    (d : Option Direction) : cs.call (.sortBy name d) = (some (.unknownColumn name), cs) := by
  have hsort : cs.sortBy name d = .error (.unknownColumn name) := by
    unfold sortBy
    rw [get?_eq_none h]
  exact congrArg cs.settle hsort

theorem call_sortBy_of_disabled {cs : Columns} {name : String} {c : Column}
    (hc : cs.get? name = some c) (h : c.sortEnabled = false) (d : Option Direction) :
    cs.call (.sortBy name d) = (none, cs) := by
  have hsort : cs.sortBy name d = .ok cs := by
    unfold sortBy
    rw [hc]
    exact if_neg (by rw [h]; exact Bool.false_ne_true)
  exact congrArg cs.settle hsort

theorem call_sortBy_of_enabled {cs : Columns} {name : String} {c : Column}
    (hc : cs.get? name = some c) (h : c.sortEnabled = true) (d : Option Direction) :
    cs.call (.sortBy name d) = (none, cs.directed name d) := by
  have hsort : cs.sortBy name d = .ok (cs.directed name d) := by
    unfold sortBy
    rw [hc]
    exact if_pos h
  exact congrArg cs.settle hsort

/-- A sort request either changes nothing or makes one column the only sorted one. -/
theorem call_sortBy_cases (cs : Columns) (name : String) (d : Option Direction) :
    (cs.call (.sortBy name d)).2 = cs ∨ (cs.call (.sortBy name d)).2 = cs.directed name d := by
  by_cases hname : name ∈ cs.names
  · cases hc : cs.get? name with
    | none =>
      obtain ⟨c, hmem, rfl⟩ := List.mem_map.1 hname
      have hfound := List.find?_eq_none.1 hc c hmem
      exact absurd (decide_eq_true rfl) hfound
    | some c =>
      by_cases h : c.sortEnabled = true
      · rw [call_sortBy_of_enabled hc h]
        exact .inr rfl
      · rw [call_sortBy_of_disabled hc (Bool.eq_false_iff.2 h)]
        exact .inl rfl
  · rw [call_sortBy_of_not_mem hname]
    exact .inl rfl

@[simp] theorem names_directed (cs : Columns) (name : String) (d : Option Direction) :
    (cs.directed name d).names = cs.names := by
  unfold directed names map
  rw [List.map_map]
  rfl

theorem direction_of_mem_directed {cs : Columns} {name : String} {d : Option Direction}
    {b : Column} (hb : b ∈ (cs.directed name d).toList) :
    b.direction = if b.name = name then d else none := by
  obtain ⟨c, -, rfl⟩ := List.mem_map.1 hb
  rfl

/-- The last request decides. -/
theorem directed_directed (cs : Columns) (name : String) (d e : Option Direction) :
    (cs.directed name d).directed name e = cs.directed name e := by
  unfold directed map
  rw [List.map_map]
  rfl

theorem get?_directed {cs : Columns} {name : String} {c : Column} (hc : cs.get? name = some c)
    (d : Option Direction) : (cs.directed name d).get? name = some (c.setDirection d) := by
  have hfind : cs.toList.find? (fun b => decide (b.name = name)) = some c := hc
  have hname : c.name = name := by simpa using List.find?_some hfind
  unfold get? directed map
  rw [List.find?_map]
  have hsame : (fun b : Column => decide (b.name = name)) ∘
      (fun b : Column => b.setDirection (if b.name = name then d else none)) =
      fun b : Column => decide (b.name = name) := rfl
  rw [hsame, hfind, Option.map_some, if_pos hname]

theorem sortedOnce_directed {cs : Columns} (hdistinct : cs.names.Nodup) (name : String)
    (d : Option Direction) : (cs.directed name d).SortedOnce := by
  have hnamed : ∀ b : Column, (b.setDirection (if b.name = name then d else none)).isSorted = true →
      b.name = name := by
    intro b hb
    by_cases hname : b.name = name
    · exact hname
    · rw [if_neg hname] at hb
      cases hb
  unfold SortedOnce directed map
  rw [List.pairwise_map]
  have hpairs : cs.toList.Pairwise fun a b => a.name ≠ b.name := List.pairwise_map.1 hdistinct
  refine hpairs.imp ?_
  intro a b hne ⟨ha, hb⟩
  exact hne ((hnamed a ha).trans (hnamed b hb).symm)

/-! ## Every run of calls -/

theorem sortedOnce_append {cs : Columns} (h : cs.SortedOnce) {c : Column}
    (hc : c.isSorted = true → cs.sorted? = none) : SortedOnce ⟨cs.toList ++ [c]⟩ := by
  have hlast : ∀ b ∈ cs.toList, ¬ (b.isSorted = true ∧ c.isSorted = true) := by
    intro b hb ⟨hsorted, hadded⟩
    exact List.find?_eq_none.1 (hc hadded) b hb hsorted
  refine List.pairwise_append.2 ⟨h, List.pairwise_singleton _ _, ?_⟩
  intro a ha b hb
  rw [List.mem_singleton.1 hb]
  exact hlast a ha

/-- What every run of calls keeps: the names are those of the successful adds, they are distinct,
and no two columns are sorted. -/
theorem Reached.invariant {names : List String} {cs : Columns} (h : Reached names cs) :
    cs.names = names ∧ names.Nodup ∧ cs.SortedOnce := by
  induction h with
  | empty => exact ⟨rfl, List.nodup_nil, List.Pairwise.nil⟩
  | @add names cs _ c hunsorted ih =>
    obtain ⟨hnames, hdistinct, hsorted⟩ := ih
    by_cases hc : c.name ∈ cs.names
    · rw [call_add_of_mem hc]
      exact ⟨hnames, hdistinct, hsorted⟩
    · obtain ⟨added, hcall, hname, hfree⟩ := call_add_of_not_mem hc hunsorted
      rw [hcall]
      refine ⟨?_, ?_, sortedOnce_append hsorted hfree⟩
      · show (cs.toList ++ [added]).map (·.name) = names ++ [c.name]
        rw [List.map_append, List.map_singleton, hname, ← hnames]
        rfl
      · show (names ++ [c.name]).Nodup
        rw [hnames] at hc
        rw [List.nodup_append]
        refine ⟨hdistinct, List.pairwise_singleton _ _, ?_⟩
        intro a ha b hb hab
        rw [List.mem_singleton.1 hb] at hab
        exact hc (hab ▸ ha)
  | @sortBy names cs _ name d ih =>
    obtain ⟨hnames, hdistinct, hsorted⟩ := ih
    rcases call_sortBy_cases cs name d with hcall | hcall
    · rw [hcall]
      exact ⟨hnames, hdistinct, hsorted⟩
    · rw [hcall, names_directed]
      exact ⟨hnames, hdistinct, sortedOnce_directed (hnames ▸ hdistinct) name d⟩

/-! ## Activations -/

/-- The columns after a request for the next direction of a column. -/
def activate (cs : Columns) (mode : SortMode) (name : String) : Columns :=
  (cs.call (.sortBy name (mode.next ((cs.get? name).bind (·.direction))))).2

/-- The columns after a number of activations of one column. -/
def activations (cs : Columns) (mode : SortMode) (name : String) : Nat → Columns
  | 0 => cs
  | k + 1 => (activations cs mode name k).activate mode name

end Columns

/-- The direction after a number of activations of an unsorted column, if there are any. -/
def SortMode.cycle (mode : SortMode) (k : Nat) : Option Direction :=
  match mode with
  | .threeState =>
    if k % 3 = 1 then some .ascending else if k % 3 = 2 then some .descending else none
  | .twoState => if k % 2 = 1 then some .ascending else some .descending

theorem SortMode.next_cycle (mode : SortMode) (k : Nat) :
    mode.next (mode.cycle k) = mode.cycle (k + 1) := by
  cases mode with
  | threeState =>
    have hk : k % 3 = 0 ∧ (k + 1) % 3 = 1 ∨ k % 3 = 1 ∧ (k + 1) % 3 = 2 ∨
        k % 3 = 2 ∧ (k + 1) % 3 = 0 := by omega
    rcases hk with ⟨h, h'⟩ | ⟨h, h'⟩ | ⟨h, h'⟩ <;> simp [cycle, next, h, h']
  | twoState =>
    have hk : k % 2 = 0 ∧ (k + 1) % 2 = 1 ∨ k % 2 = 1 ∧ (k + 1) % 2 = 0 := by omega
    rcases hk with ⟨h, h'⟩ | ⟨h, h'⟩ <;> simp [cycle, next, h, h']

namespace Columns

/-- Activations of an unsorted column that can be sorted go round the directions of the mode. -/
theorem activations_eq {cs : Columns} {name : String} {c : Column} (hc : cs.get? name = some c)
    (henabled : c.sortEnabled = true) (hunsorted : c.direction = none) (mode : SortMode) (k : Nat) :
    cs.activations mode name (k + 1) = cs.directed name (mode.cycle (k + 1)) := by
  induction k with
  | zero =>
    show (cs.call (.sortBy name (mode.next ((cs.get? name).bind (·.direction))))).2 = _
    have hnext : mode.next ((cs.get? name).bind (·.direction)) = mode.cycle 1 := by
      rw [hc, Option.bind_some, hunsorted]
      cases mode <;> rfl
    rw [hnext, call_sortBy_of_enabled hc henabled]
  | succ k ih =>
    have hfound := get?_directed hc (mode.cycle (k + 1))
    have hstill : (c.setDirection (mode.cycle (k + 1))).sortEnabled = true := henabled
    show (cs.activations mode name (k + 1)).activate mode name = _
    rw [ih]
    unfold activate
    rw [hfound, Option.bind_some]
    show ((cs.directed name _).call (.sortBy name (mode.next (mode.cycle (k + 1))))).2 = _
    rw [SortMode.next_cycle, call_sortBy_of_enabled hfound hstill, directed_directed]

/-- **The sort state stays exclusive over every run.** Of the collections that calls make of the
empty one: the names are those of the successful adds, in order and distinct, and no two columns
are sorted. Adding a name again, a request for an unknown name and a request for a column that
cannot be sorted change nothing. A request for one that can be gives it the direction and takes
that of every other, and changes nothing else. Activations of an unsorted one follow the cycle of
the mode, with all others unsorted. -/
theorem sort_state_exclusive {names : List String} {cs : Columns} (h : Reached names cs) :
    cs.names = names ∧ names.Nodup ∧ cs.SortedOnce ∧
    (∀ c : Column, (c.name ∈ names → cs.call (.add c) = (some (.duplicateColumn c.name), cs)) ∧
      (c.name ∉ names → c.direction = none → (cs.call (.add c)).1 = none)) ∧
    (∀ (name : String) (d : Option Direction), name ∉ names →
      cs.call (.sortBy name d) = (some (.unknownColumn name), cs)) ∧
    ∀ c ∈ cs.toList,
      (c.sortEnabled = false → ∀ d, cs.call (.sortBy c.name d) = (none, cs)) ∧
      (c.sortEnabled = true → ∀ d, ∃ after, cs.call (.sortBy c.name d) = (none, after) ∧
        after.toList.map (·.setDirection none) = cs.toList.map (·.setDirection none) ∧
        ∀ b ∈ after.toList, b.direction = if b.name = c.name then d else none) ∧
      (c.sortEnabled = true → c.direction = none → ∀ (mode : SortMode) (k : Nat), 1 ≤ k →
        (cs.activations mode c.name k).names = names ∧
        ∀ b ∈ (cs.activations mode c.name k).toList,
          b.direction = if b.name = c.name then mode.cycle k else none) := by
  obtain ⟨hnames, hdistinct, hsorted⟩ := h.invariant
  refine ⟨hnames, hdistinct, hsorted, ?_, ?_, ?_⟩
  · intro c
    rw [← hnames]
    refine ⟨call_add_of_mem, ?_⟩
    intro hc hunsorted
    obtain ⟨added, hcall, -, -⟩ := call_add_of_not_mem hc hunsorted
    rw [hcall]
  · intro name d hname
    rw [← hnames] at hname
    exact call_sortBy_of_not_mem hname d
  · intro c hc
    have hfound : cs.get? c.name = some c := get?_of_mem (hnames ▸ hdistinct) hc
    refine ⟨fun h d => call_sortBy_of_disabled hfound h d, ?_, ?_⟩
    · intro h d
      refine ⟨cs.directed c.name d, call_sortBy_of_enabled hfound h d, ?_, ?_⟩
      · unfold directed map
        rw [List.map_map]
        rfl
      · intro b hb
        exact direction_of_mem_directed hb
    · intro henabled hunsorted mode k hk
      obtain ⟨k, rfl⟩ : ∃ j, k = j + 1 := ⟨k - 1, by omega⟩
      rw [activations_eq hfound henabled hunsorted, names_directed]
      exact ⟨hnames, fun b hb => direction_of_mem_directed hb⟩

/-- A column that requests can sort. -/
def cityColumn : Column := (Column.ofExpression "City" .text).enableSort true .threeState

/-- A column that only its initial direction sorts. -/
def netColumn : Column := (Column.ofExpression "Net" .decimal).withInitialDirection .descending

/-- The two columns, of which the second is sorted though no request could do so. -/
def cityAndNet : Columns := ⟨[cityColumn, netColumn.setDirection (some .descending)]⟩

theorem sort_state_exclusive_of_cities :
    Reached ["City", "Net"] cityAndNet ∧ cityAndNet.SortedOnce ∧
      cityAndNet.call (.add cityColumn) = (some (.duplicateColumn "City"), cityAndNet) ∧
      cityAndNet.call (.sortBy "Net" none) = (none, cityAndNet) ∧
      (∀ b ∈ (cityAndNet.activations .threeState "City" 5).toList,
        b.direction = if b.name = "City" then some .descending else none) ∧
      ∀ b ∈ (cityAndNet.activations .threeState "City" 6).toList, b.direction = none := by
  have hreached : Reached ["City", "Net"] cityAndNet :=
    (Reached.empty.add cityColumn rfl).add netColumn rfl
  have hcity : cityColumn ∈ cityAndNet.toList := List.mem_cons_self
  have hnet : netColumn.setDirection (some .descending) ∈ cityAndNet.toList :=
    List.mem_cons_of_mem _ List.mem_cons_self
  obtain ⟨-, -, honce, hadd, -, hcolumns⟩ := sort_state_exclusive hreached
  obtain ⟨-, -, hcycle⟩ := hcolumns _ hcity
  refine ⟨hreached, honce, (hadd cityColumn).1 (by decide), (hcolumns _ hnet).1 rfl none,
    (hcycle rfl rfl .threeState 5 (by decide)).2, ?_⟩
  intro b hb
  have hdirection := (hcycle rfl rfl .threeState 6 (by decide)).2 b hb
  rwa [show SortMode.threeState.cycle 6 = none from rfl, ite_self] at hdirection

end Columns

end DataGrid
