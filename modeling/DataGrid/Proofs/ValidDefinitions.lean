import DataGrid.Definition
import DataGrid.Proofs.SortState
import DataGrid.Proofs.TrimmedText

/-!
# Valid definitions

A definition is built exactly if its entity is not blank, each column has a name and a known
operator, and no two columns have one name; otherwise the error is that of the entity or of the
first column with a fault. Building adds one column after the other, so what is proved of one step
is that a column without a fault is put behind the others as it is defined, and that a fault ends
the run with its error.
-/

namespace DataGrid

open Text

/-! ## What a definition asks for -/

namespace ColumnDefinition

/-- The initial filter, if there is one, has a known operator. -/
def Accepted (c : ColumnDefinition) : Prop :=
  ∀ f, c.initialFilter = some f → ∃ o, Operator.ofText f.operator = .ok o

/-- What is wrong with a column when these names are taken: it has no name, or else an unknown
operator, or else a name that is taken. -/
inductive Fault (taken : List (Option String)) (c : ColumnDefinition) : GridError → Prop where
  | nameless (hname : c.effectiveName? = none) : Fault taken c (.definition .namelessColumn)
  | operator {name : String} {f : InitialFilter} {e : Operator.Unknown}
    (hname : c.effectiveName? = some name) (hfilter : c.initialFilter = some f)
    (hunknown : Operator.ofText f.operator = .error e) : Fault taken c (.unknownOperator e.text)
  | duplicate {name : String} (hname : c.effectiveName? = some name) (haccepted : c.Accepted)
    (htaken : some name ∈ taken) : Fault taken c (.duplicateColumn name)

/-- A column stands for its definition behind the `earlier` ones: it has the name, it is sorted if
it is the first one with an initial direction, and filtering and sorting are on where there is an
expression and the setting of the column, or the default, says so. -/
structure Realizes (defaults : GridDefaults) (earlier : List ColumnDefinition)
    (c : ColumnDefinition) (column : Column) : Prop where
  name : c.effectiveName? = some column.name
  direction : column.direction =
    if earlier.any (·.initialDirection.isSome) then none else c.initialDirection
  filtering : column.filterEnabled =
    (c.expression.isSome && c.filterable.getD defaults.filterable)
  sorting : column.sortEnabled = (c.expression.isSome && c.sortable.getD defaults.sortable)

end ColumnDefinition

namespace Definition

/-- Every column has a name and a known operator, and no two have one name. -/
structure Sound (columns : List ColumnDefinition) : Prop where
  named : ∀ c ∈ columns, c.name.isSome = true ∨ c.expression.isSome = true
  accepted : ∀ c ∈ columns, c.Accepted
  distinct : (columns.map (·.effectiveName?)).Nodup

/-- Columns stand one by one for their definitions, in the same order. -/
structure Built (defaults : GridDefaults) (columns : List ColumnDefinition) (cs : Columns) :
    Prop where
  length_eq : cs.length = columns.length
  realizes : ∀ i c, columns[i]? = some c →
    ∃ column, cs.toList[i]? = some column ∧
      ColumnDefinition.Realizes defaults (columns.take i) c column

end Definition

/-! ## One column -/

namespace ColumnDefinition

variable {defaults : GridDefaults} {c : ColumnDefinition} {name : String}

/-- The column of a definition before it is added: unsorted, and with its settings. -/
structure Prepared (defaults : GridDefaults) (c : ColumnDefinition) (name : String)
    (column : Column) : Prop where
  name : column.name = name
  direction : column.direction = none
  initialDirection : column.initialDirection = c.initialDirection
  filtering : column.filterEnabled =
    (c.expression.isSome && c.filterable.getD defaults.filterable)
  sorting : column.sortEnabled = (c.expression.isSome && c.sortable.getD defaults.sortable)

/-- An unsorted column without settings. -/
structure Described (name : String) (expression : Option String) (initial : Option Direction)
    (column : Column) : Prop where
  name : column.name = name
  expression : column.expression = expression
  direction : column.direction = none
  initialDirection : column.initialDirection = initial
  sortDefined : column.sortDefined = false

namespace Described

variable {expression : Option String} {initial : Option Direction} {column : Column}

/-- A step that keeps the description keeps it also where the definition leaves the step out. -/
theorem step {α : Type} (h : Described name expression initial column) (f : Column → α → Column)
    (hf : ∀ column a, Described name expression initial column →
      Described name expression initial (f column a)) (part : Option α) :
    Described name expression initial (part.elim column (f column)) := by
  cases part with
  | none => exact h
  | some a => exact hf column a h

theorem expressed (h : Described name none initial column) (expression : Option String) :
    Described name expression initial (expression.elim column column.withExpression) := by
  cases expression with
  | none => exact h
  | some e => exact { h with expression := rfl }

theorem directed (h : Described name expression none column) (initial : Option Direction) :
    Described name expression initial (initial.elim column column.withInitialDirection) := by
  cases initial with
  | none => exact h
  | some d => exact { h with initialDirection := rfl }

theorem addTieBreakers (h : Described name expression initial column) (ties : List TieBreaker) :
    Described name expression initial (ColumnDefinition.addTieBreakers ties column) := by
  induction ties generalizing column with
  | nil => exact h
  | cons tie ties ih => exact ih { h with }

/-- A default settles the sorting of a column that has not settled it itself. -/
theorem defaultSort (h : Described name expression initial column) (enabled : Bool)
    (mode : SortMode) :
    column.defaultSort enabled mode =
      { column.enableSort enabled mode with sortDefined := false } :=
  if_neg (by rw [h.sortDefined]; exact Bool.false_ne_true)

theorem settings (h : Described name c.expression c.initialDirection column) (mode : SortMode) :
    Prepared defaults c name
      (c.sortable.elim
        ((column.enableFilter (c.filterable.getD defaults.filterable)).defaultSort
          defaults.sortable mode)
        ((column.enableFilter (c.filterable.getD defaults.filterable)).enableSort · mode)) := by
  have hfiltered : Described name c.expression c.initialDirection
      (column.enableFilter (c.filterable.getD defaults.filterable)) := { h with }
  have hsettled : ∀ enabled : Bool,
      (enabled && column.expression.isSome) = (c.expression.isSome && enabled) := by
    intro enabled
    rw [h.expression, Bool.and_comm]
  have hfiltering := hsettled (c.filterable.getD defaults.filterable)
  cases hsortable : c.sortable with
  | none =>
    rw [Option.elim_none, hfiltered.defaultSort]
    exact ⟨h.name, h.direction, h.initialDirection, hfiltering, by
      rw [hsortable]; exact hsettled defaults.sortable⟩
  | some sortable =>
    exact ⟨h.name, h.direction, h.initialDirection, hfiltering, by
      rw [hsortable]; exact hsettled sortable⟩

end Described

theorem Prepared.setFlag {column : Column} (h : Prepared defaults c name column) (slot : TotalSlot)
    (enabled : Bool) : Prepared defaults c name (column.setFlag slot enabled) := { h with }

theorem prepared_assemble (c : ColumnDefinition) (defaults : GridDefaults) (name : String)
    (initial : Option (Operator × String)) :
    Prepared defaults c name (c.assemble defaults name initial) := by
  have hnamed : Described name none none ((Column.named name c.kind).withHidden c.hidden) :=
    ⟨rfl, rfl, rfl, rfl, rfl⟩
  have htitle := (hnamed.expressed c.expression).step Column.withTitle
    (fun _ _ h => { h with }) c.title
  have hformat := htitle.step Column.withFormat (fun _ _ h => { h with }) c.format
  have hrelation := hformat.step Column.withRelation (fun _ _ h => { h with }) c.relation
  have hfilter := hrelation.step (fun column o => column.withInitialFilter o.1 o.2)
    (fun _ _ h => { h with }) initial
  have hsorted := (hfilter.directed c.initialDirection).addTieBreakers c.thenBy
  have hsettings : Prepared defaults c name _ :=
    hsorted.settings (c.sortMode.getD defaults.sortMode)
  exact (((hsettings.setFlag .sum c.sum).setFlag .average c.average).setFlag .max c.max).setFlag
    .min c.min

theorem accepted_or_unknown (c : ColumnDefinition) :
    c.Accepted ∨ ∃ f e, c.initialFilter = some f ∧ Operator.ofText f.operator = .error e := by
  cases hfilter : c.initialFilter with
  | none => exact .inl fun f hf => by rw [hfilter] at hf; cases hf
  | some f =>
    cases ho : Operator.ofText f.operator with
    | error e => exact .inr ⟨f, e, rfl, ho⟩
    | ok o =>
      refine .inl fun g hg => ⟨o, ?_⟩
      rw [hfilter] at hg
      cases hg
      exact ho

/-- A column with a name and a known operator is made, whatever its other parts are. -/
theorem build_accepted (defaults : GridDefaults) (hname : c.effectiveName? = some name)
    (h : c.Accepted) :
    ∃ column, c.build defaults = .ok column ∧ Prepared defaults c name column := by
  obtain ⟨initial, hinitial⟩ : ∃ initial, c.initialOption? = .ok initial := by
    unfold initialOption?
    cases hfilter : c.initialFilter with
    | none => exact ⟨none, rfl⟩
    | some f =>
      obtain ⟨o, ho⟩ := h f hfilter
      dsimp only
      rw [ho]
      exact ⟨some (o, f.value), rfl⟩
  refine ⟨c.assemble defaults name initial, ?_, prepared_assemble c defaults name initial⟩
  unfold build
  rw [hname, hinitial]
  rfl

/-- A column with a fault other than a name that is taken is not made. -/
theorem Fault.build {taken : List (Option String)} {e : GridError} (h : c.Fault taken e)
    (defaults : GridDefaults) :
    c.build defaults = .error e ∨
      ∃ name, e = .duplicateColumn name ∧ some name ∈ taken ∧ c.effectiveName? = some name ∧
        c.Accepted := by
  cases h with
  | nameless hname =>
    refine .inl ?_
    unfold ColumnDefinition.build
    rw [hname]
  | operator hname hfilter hunknown =>
    refine .inl ?_
    unfold ColumnDefinition.build initialOption?
    rw [hname, hfilter]
    dsimp only
    rw [hunknown]
    rfl
  | duplicate hname haccepted htaken => exact .inr ⟨_, rfl, htaken, hname, haccepted⟩

/-- A column has a fault unless it has a name that is not taken and a known operator. -/
theorem fault_or_accepted (taken : List (Option String)) (c : ColumnDefinition) :
    (∃ e, c.Fault taken e) ∨
      ∃ name, c.effectiveName? = some name ∧ c.Accepted ∧ some name ∉ taken := by
  cases hname : c.effectiveName? with
  | none => exact .inl ⟨_, .nameless hname⟩
  | some name =>
    rcases c.accepted_or_unknown with haccepted | ⟨f, e, hfilter, hunknown⟩
    · by_cases htaken : some name ∈ taken
      · exact .inl ⟨_, .duplicate hname haccepted htaken⟩
      · exact .inr ⟨name, rfl, haccepted, htaken⟩
    · exact .inl ⟨_, .operator hname hfilter hunknown⟩

end ColumnDefinition

/-! ## One step -/

namespace Definition

variable {defaults : GridDefaults} {earlier rest : List ColumnDefinition} {c : ColumnDefinition}
  {cs : Columns} {name : String} {column : Column}

/-- The definition at an index of built columns, and the column there. -/
theorem Built.getElem? (h : Built defaults earlier cs) (i : Nat) :
    earlier[i]? = none ∧ cs.toList[i]? = none ∨ ∃ c column, earlier[i]? = some c ∧
      cs.toList[i]? = some column ∧ c.Realizes defaults (earlier.take i) column := by
  cases hc : earlier[i]? with
  | none =>
    refine .inl ⟨rfl, ?_⟩
    rw [List.getElem?_eq_none_iff] at hc ⊢
    exact Nat.le_trans (Nat.le_of_eq h.length_eq) hc
  | some c =>
    obtain ⟨column, hcolumn, hrealizes⟩ := h.realizes i c hc
    exact .inr ⟨c, column, rfl, hcolumn, hrealizes⟩

theorem Built.mem_names_iff (h : Built defaults earlier cs) :
    name ∈ cs.names ↔ some name ∈ earlier.map (·.effectiveName?) := by
  have hnames : cs.names.map some = earlier.map (·.effectiveName?) := by
    refine List.ext_getElem? fun i => ?_
    rw [Columns.names, List.map_map, List.getElem?_map, List.getElem?_map]
    rcases h.getElem? i with ⟨hc, hcolumn⟩ | ⟨c, column, hc, hcolumn, hrealizes⟩
    · rw [hc, hcolumn]
      rfl
    · rw [hc, hcolumn, Option.map_some, Option.map_some, hrealizes.name]
      rfl
  rw [← hnames, List.mem_map]
  exact ⟨fun hname => ⟨name, hname, rfl⟩, fun ⟨_, hname, heq⟩ => Option.some.inj heq ▸ hname⟩

/-- Some column is sorted exactly if a definition has an initial direction, since the first one
that has it gives it to its column. -/
theorem Built.sorted?_isNone (h : Built defaults earlier cs) :
    cs.sorted?.isNone = !earlier.any (·.initialDirection.isSome) := by
  cases hfirst : earlier.find? (·.initialDirection.isSome) with
  | none =>
    have hunset := List.find?_eq_none.1 hfirst
    have hany : earlier.any (·.initialDirection.isSome) = false := List.any_eq_false.2 hunset
    have hsorted : cs.sorted? = none := by
      refine List.find?_eq_none.2 fun column hmem => ?_
      obtain ⟨i, hi⟩ := List.getElem?_of_mem hmem
      rcases h.getElem? i with ⟨-, hnone⟩ | ⟨c, _, hc, hcolumn, hrealizes⟩
      · rw [hnone] at hi
        cases hi
      · obtain rfl : _ = column := Option.some.inj (hcolumn.symm.trans hi)
        have hc := hunset c (List.mem_of_getElem? hc)
        unfold ColumnState.isSorted
        rw [hrealizes.direction]
        split
        · exact Bool.false_ne_true
        · exact hc
    rw [hsorted, hany]
    rfl
  | some c =>
    obtain ⟨hset, before, after, rfl, hbefore⟩ := List.find?_eq_some_iff_append.1 hfirst
    have hany : (before ++ c :: after).any (·.initialDirection.isSome) = true :=
      List.any_eq_true.2 ⟨c, List.mem_append_right _ List.mem_cons_self, hset⟩
    have hunset : before.any (·.initialDirection.isSome) = false :=
      List.any_eq_false.2 fun b hb => by simpa using hbefore b hb
    obtain ⟨column, hcolumn, hrealizes⟩ := h.realizes before.length c
      (by rw [List.getElem?_append_right (Nat.le_refl _), Nat.sub_self]; rfl)
    have hlive : column.isSorted = true := by
      unfold ColumnState.isSorted
      rw [hrealizes.direction, List.take_left, hunset]
      exact hset
    have hsorted : cs.sorted?.isSome = true :=
      List.find?_isSome.2 ⟨column, List.mem_of_getElem? hcolumn, hlive⟩
    rw [hany, Option.isNone_eq_false_iff.2 hsorted]
    rfl

/-- Built columns stay built when one more is put behind them. -/
theorem Built.concat (h : Built defaults earlier cs)
    (hrealizes : c.Realizes defaults earlier column) :
    Built defaults (earlier ++ [c]) ⟨cs.toList ++ [column]⟩ := by
  have hlength : cs.toList.length = earlier.length := h.length_eq
  refine ⟨?_, fun i d hd => ?_⟩
  · show (cs.toList ++ [column]).length = (earlier ++ [c]).length
    rw [List.length_append, List.length_append]
    exact congrArg (· + 1) hlength
  · rcases Nat.lt_or_ge i earlier.length with hi | hi
    · rw [List.getElem?_append_left hi] at hd
      obtain ⟨b, hb, hbefore⟩ := h.realizes i d hd
      refine ⟨b, ?_, ?_⟩
      · rw [List.getElem?_append_left (hlength ▸ hi), hb]
      · rwa [List.take_append_of_le_length (Nat.le_of_lt hi)]
    · rw [List.getElem?_append_right hi, List.getElem?_singleton] at hd
      obtain ⟨hlast, rfl⟩ : i - earlier.length = 0 ∧ c = d := by
        split at hd
        · exact ⟨‹_›, Option.some.inj hd⟩
        · cases hd
      obtain rfl : i = earlier.length := by omega
      refine ⟨column, ?_, ?_⟩
      · rw [List.getElem?_append_right (Nat.le_of_eq hlength), hlength, Nat.sub_self]
        rfl
      · rwa [List.take_left]

/-- Behind built columns, a column with a new name is added as it is defined. -/
theorem Built.add (h : Built defaults earlier cs) (hname : c.effectiveName? = some name)
    (hcolumn : c.Prepared defaults name column)
    (hnew : some name ∉ earlier.map (·.effectiveName?)) :
    ∃ after, cs.add column = .ok after ∧ Built defaults (earlier ++ [c]) after := by
  have hfree : ¬ cs.contains column.name = true := by
    rw [Columns.contains_eq_true, hcolumn.name, h.mem_names_iff]
    exact hnew
  have hunsorted : column.setDirection none = column := by
    unfold Column.setDirection
    rw [← hcolumn.direction]
  let added := column.setDirection
    (if earlier.any (·.initialDirection.isSome) then none else c.initialDirection)
  have hadd : cs.add column = .ok ⟨cs.toList ++ [added]⟩ := by
    unfold Columns.add
    rw [if_neg hfree, hcolumn.initialDirection, h.sorted?_isNone]
    show _ = Except.ok (Columns.mk (cs.toList ++ [column.setDirection _]))
    cases c.initialDirection with
    | none => rw [ite_self, hunsorted]
    | some d =>
      cases earlier.any (·.initialDirection.isSome) with
      | false => rfl
      | true => rw [if_pos rfl, hunsorted]; rfl
  have hrealizes : c.Realizes defaults earlier added :=
    ⟨hname.trans (congrArg some hcolumn.name.symm), rfl, hcolumn.filtering, hcolumn.sorting⟩
  exact ⟨_, hadd, h.concat hrealizes⟩

/-- A column without a fault is made and added, and the run goes on behind it. -/
theorem addColumns_cons (h : Built defaults earlier cs) (hname : c.effectiveName? = some name)
    (haccepted : c.Accepted) (hnew : some name ∉ earlier.map (·.effectiveName?)) :
    ∃ after, Built defaults (earlier ++ [c]) after ∧
      addColumns defaults (c :: rest) cs = addColumns defaults rest after := by
  obtain ⟨column, hbuild, hcolumn⟩ := ColumnDefinition.build_accepted defaults hname haccepted
  obtain ⟨after, hadd, hafter⟩ := h.add hname hcolumn hnew
  refine ⟨after, hafter, ?_⟩
  rw [addColumns, hbuild]
  dsimp only
  rw [hadd]

/-- A column with a fault ends the run with the error of its fault. -/
theorem addColumns_fault {e : GridError} (h : Built defaults earlier cs)
    (hfault : c.Fault (earlier.map (·.effectiveName?)) e) :
    addColumns defaults (c :: rest) cs = .error e := by
  rw [addColumns]
  rcases hfault.build defaults with hbuild | ⟨name, rfl, htaken, hname, haccepted⟩
  · rw [hbuild]
  · obtain ⟨column, hbuild, hcolumn⟩ := ColumnDefinition.build_accepted defaults hname haccepted
    have hadd : cs.add column = .error (.duplicateColumn column.name) := by
      unfold Columns.add
      rw [if_pos]
      rw [Columns.contains_eq_true, hcolumn.name, h.mem_names_iff]
      exact htaken
    rw [hbuild]
    dsimp only
    rw [hadd, hcolumn.name]

/-! ## Every run -/

theorem addColumns_append (before after : List ColumnDefinition) (cs : Columns) :
    addColumns defaults (before ++ after) cs =
      (addColumns defaults before cs).bind (addColumns defaults after) := by
  induction before generalizing cs with
  | nil => rfl
  | cons c before ih =>
    rw [List.cons_append, addColumns, addColumns]
    cases c.build defaults with
    | error e => rfl
    | ok column =>
      dsimp only
      cases cs.add column with
      | error e => rfl
      | ok after => exact ih after

theorem sound_concat : Sound (earlier ++ [c]) ↔ Sound earlier ∧
    ∃ name, c.effectiveName? = some name ∧ c.Accepted ∧
      some name ∉ earlier.map (·.effectiveName?) := by
  have hnamed : (c.name.isSome = true ∨ c.expression.isSome = true) ↔
      ∃ name, c.effectiveName? = some name := by
    unfold ColumnDefinition.effectiveName?
    rw [← Option.isSome_iff_exists]
    cases c.name <;> cases c.expression <;> simp
  have hdistinct : ((earlier ++ [c]).map (·.effectiveName?)).Nodup ↔
      (earlier.map (·.effectiveName?)).Nodup ∧
        c.effectiveName? ∉ earlier.map (·.effectiveName?) := by
    rw [List.map_append, List.map_singleton, List.perm_append_comm.nodup_iff,
      List.singleton_append, List.nodup_cons, and_comm]
  constructor
  · rintro ⟨hnames, haccepted, hnames'⟩
    obtain ⟨hrest, hnew⟩ := hdistinct.1 hnames'
    rw [List.forall_mem_append, List.forall_mem_singleton] at hnames haccepted
    obtain ⟨name, hname⟩ := hnamed.1 hnames.2
    exact ⟨⟨hnames.1, haccepted.1, hrest⟩, name, hname, haccepted.2, hname ▸ hnew⟩
  · rintro ⟨⟨hnames, haccepted, hrest⟩, name, hname, hc, hnew⟩
    refine ⟨?_, ?_, hdistinct.2 ⟨hrest, hname ▸ hnew⟩⟩
    · rw [List.forall_mem_append, List.forall_mem_singleton]
      exact ⟨hnames, hnamed.2 ⟨name, hname⟩⟩
    · rw [List.forall_mem_append, List.forall_mem_singleton]
      exact ⟨haccepted, hc⟩

/-- Sound columns are all added, and each one stands for its definition. -/
theorem addColumns_sound (defaults : GridDefaults) {columns : List ColumnDefinition}
    (h : Sound columns) :
    ∃ cs, addColumns defaults columns {} = .ok cs ∧ Built defaults columns cs := by
  -- The last column meets the names of all others, so the induction goes from the end.
  induction columns using List.reverseRecOn with
  | nil => exact ⟨{}, rfl, rfl, fun i c hc => by cases hc⟩
  | append_singleton earlier c ih =>
    obtain ⟨hearlier, name, hname, haccepted, hnew⟩ := sound_concat.1 h
    obtain ⟨cs, hrun, hbuilt⟩ := ih hearlier
    obtain ⟨after, hafter, hstep⟩ := addColumns_cons hbuilt hname haccepted hnew
    refine ⟨after, ?_, hafter⟩
    rw [addColumns_append, hrun]
    exact hstep

/-- The error of the first column with a fault is that of the run. -/
theorem addColumns_first_fault (defaults : GridDefaults) {before : List ColumnDefinition}
    (h : Sound before) {e : GridError} (hfault : c.Fault (before.map (·.effectiveName?)) e)
    (after : List ColumnDefinition) :
    addColumns defaults (before ++ c :: after) {} = .error e := by
  obtain ⟨cs, hrun, hbuilt⟩ := addColumns_sound defaults h
  rw [addColumns_append, hrun]
  exact addColumns_fault hbuilt hfault

/-- Columns are sound, or one of them is the first with a fault. -/
theorem sound_or_fault (columns : List ColumnDefinition) :
    Sound columns ∨ ∃ before c after e, columns = before ++ c :: after ∧ Sound before ∧
      ColumnDefinition.Fault (before.map (·.effectiveName?)) c e := by
  induction columns using List.reverseRecOn with
  | nil => exact .inl ⟨by simp, by simp, List.nodup_nil⟩
  | append_singleton earlier c ih =>
    rcases ih with hsound | ⟨before, d, after, e, rfl, hsound, hfault⟩
    · rcases c.fault_or_accepted (earlier.map (·.effectiveName?)) with ⟨e, hfault⟩ | haccepted
      · exact .inr ⟨earlier, c, [], e, rfl, hsound, hfault⟩
      · exact .inl (sound_concat.2 ⟨hsound, haccepted⟩)
    · refine .inr ⟨before, d, after ++ [c], e, ?_, hsound, hfault⟩
      rw [List.append_assoc, List.cons_append]

/-! ## The whole definition -/

/-- The entity is blank. -/
def Blank (d : Definition) : Prop := ∀ ch ∈ d.entity.toList, isBlank ch = true

variable {d : Definition}

theorem build_of_blank (h : d.Blank) (config : Config) :
    d.build config = .error (.definition .blankEntity) := if_pos ((isEmpty_trim _).2 h)

theorem build_of_not_blank (h : ¬ d.Blank) (config : Config) :
    d.build config = (addColumns config.grid d.columns {}).map fun columns =>
      { context := .ofEntity d.entity
        columns := columns
        paging := config.paging
        defaultFormat := config.grid.format } :=
  if_neg fun hempty => h ((isEmpty_trim _).1 hempty)

theorem build_of_sound (h : ¬ d.Blank) (hsound : Sound d.columns) (config : Config) :
    ∃ g, d.build config = .ok g ∧ Built config.grid d.columns g.columns := by
  obtain ⟨cs, hrun, hbuilt⟩ := addColumns_sound config.grid hsound
  rw [build_of_not_blank h, hrun]
  exact ⟨_, rfl, hbuilt⟩

theorem build_of_fault (h : ¬ d.Blank) {before after : List ColumnDefinition} {e : GridError}
    (heq : d.columns = before ++ c :: after) (hsound : Sound before)
    (hfault : c.Fault (before.map (·.effectiveName?)) e) (config : Config) :
    d.build config = .error e := by
  rw [build_of_not_blank h, heq, addColumns_first_fault config.grid hsound hfault]
  rfl

/-- **Definitions build exactly when they are valid.** The grid of a definition is made exactly if
the entity is not blank and the columns are sound. Otherwise the error is that of the blank entity,
or else that of the first column with a fault. The columns of the grid stand for those of the
definition, in order. -/
theorem build_ok_iff_sound (d : Definition) (config : Config) :
    ((∃ g, d.build config = .ok g) ↔ ¬ d.Blank ∧ Sound d.columns) ∧
    (∀ e, d.build config = .error e ↔
      d.Blank ∧ e = .definition .blankEntity ∨
      ¬ d.Blank ∧ ∃ before c after, d.columns = before ++ c :: after ∧ Sound before ∧
        c.Fault (before.map (·.effectiveName?)) e) ∧
    ∀ g, d.build config = .ok g → Built config.grid d.columns g.columns := by
  have hsound : ∀ g, d.build config = .ok g → ¬ d.Blank ∧ Sound d.columns := by
    intro g hg
    by_cases hblank : d.Blank
    · rw [build_of_blank hblank] at hg
      cases hg
    · rcases sound_or_fault d.columns with h | ⟨before, c, after, e, heq, hbefore, hfault⟩
      · exact ⟨hblank, h⟩
      · rw [build_of_fault hblank heq hbefore hfault] at hg
        cases hg
  refine ⟨⟨fun ⟨g, hg⟩ => hsound g hg, fun ⟨hblank, h⟩ => ?_⟩, fun e => ⟨fun he => ?_, ?_⟩, ?_⟩
  · obtain ⟨g, hg, -⟩ := build_of_sound hblank h config
    exact ⟨g, hg⟩
  · by_cases hblank : d.Blank
    · rw [build_of_blank hblank] at he
      exact .inl ⟨hblank, (Except.error.inj he).symm⟩
    · rcases sound_or_fault d.columns with h | ⟨before, c, after, e', heq, hbefore, hfault⟩
      · obtain ⟨g, hg, -⟩ := build_of_sound hblank h config
        rw [hg] at he
        cases he
      · rw [build_of_fault hblank heq hbefore hfault] at he
        cases he
        exact .inr ⟨hblank, before, c, after, heq, hbefore, hfault⟩
  · rintro (⟨hblank, rfl⟩ | ⟨hblank, before, c, after, heq, hbefore, hfault⟩)
    · exact build_of_blank hblank config
    · exact build_of_fault hblank heq hbefore hfault config
  · intro g hg
    obtain ⟨hblank, h⟩ := hsound g hg
    obtain ⟨g', hg', hbuilt⟩ := build_of_sound hblank h config
    rw [hg] at hg'
    cases hg'
    exact hbuilt

/-- Two columns with initial directions, of which the first has no expression. -/
def orderColumns : List ColumnDefinition :=
  [{ name := some "Stamp", kind := .text, initialDirection := some .descending },
    { expression := some "Net", kind := .decimal, sortable := some true,
      initialFilter := some ⟨"0", "5"⟩, initialDirection := some .ascending }]

theorem sound_orderColumns : Sound orderColumns := by
  refine ⟨by decide, ?_, by decide⟩
  unfold orderColumns
  rw [List.forall_mem_cons, List.forall_mem_singleton]
  constructor
  · intro f hf
    cases hf
  · intro f hf
    cases hf
    exact ⟨.none, by decide +kernel⟩

/-- The columns are built, with the second one sortable but unsorted; a third one of its name
is the first with a fault. -/
theorem build_ok_iff_sound_of_orders :
    (∃ g column, Definition.build ⟨"orders", orderColumns⟩ {} = .ok g ∧
      g.columns.toList[1]? = some column ∧ column.name = "Net" ∧ column.direction = none ∧
      column.sortEnabled = true ∧ column.filterEnabled = false) ∧
    Definition.build ⟨"orders", orderColumns ++ [{ name := some "Net", kind := .text }]⟩ {} =
      .error (.duplicateColumn "Net") := by
  have hblank : ∀ columns, ¬ Blank ⟨"orders", columns⟩ := fun columns h =>
    absurd ((isEmpty_trim "orders".toList).2 h) (by decide)
  obtain ⟨hok, -, hbuilt⟩ := build_ok_iff_sound ⟨"orders", orderColumns⟩ {}
  obtain ⟨-, herror, -⟩ := build_ok_iff_sound
    ⟨"orders", orderColumns ++ [{ name := some "Net", kind := .text }]⟩ {}
  constructor
  · obtain ⟨g, hg⟩ := hok.2 ⟨hblank _, sound_orderColumns⟩
    obtain ⟨column, hcolumn, hrealizes⟩ := (hbuilt g hg).realizes 1 _ rfl
    exact ⟨g, column, hg, hcolumn, (Option.some.inj hrealizes.name).symm, hrealizes.direction,
      hrealizes.sorting, hrealizes.filtering⟩
  · exact (herror _).2 (.inr ⟨hblank _, orderColumns, _, [], rfl, sound_orderColumns,
      .duplicate rfl (fun f hf => by cases hf) (by decide)⟩)

end Definition

end DataGrid
