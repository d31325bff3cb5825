import DataGrid.Proofs.BinaryDecimals
import DataGrid.Proofs.BinarySums
import DataGrid.Proofs.DuplicateReadings
import DataGrid.Proofs.Extremes
import Mathlib.Algebra.Order.BigOperators.Group.List

/-!
# Averages of integers

The extremes of stored integers are exact, and their average is the quotient of a binary sum, read
as a decimal. All three are numbers, however large the sum is. The average lies between the extremes
if nothing is rounded before the quotient is: each integer, each running total and their number is
one that a binary number holds, as all integers up to 2^53 are. One integer beyond them is its own
minimum, and its average is less.
-/

namespace DataGrid

open Number

/-! ## The mean of words -/

/-- Whether binary numbers hold each of a list of words, each running total and their number. -/
structure Unrounded (ns : List Int64) : Prop where
  terms : ∀ n ∈ ns, Binary64.Holds n.toInt
  totals : ∀ p, p <+: ns → Binary64.Holds (integerSum p)
  count : Binary64.Holds ns.length

theorem unrounded_of_natAbs_le {ns : List Int64}
    (hterms : ∀ n ∈ ns, n.toInt.natAbs ≤ twoTo precision)
    (htotals : ∀ p, p <+: ns → (integerSum p).natAbs ≤ twoTo precision)
    (hcount : ns.length ≤ twoTo precision) : Unrounded ns where
  terms n hn := Binary64.holds_of_natAbs_le (hterms n hn)
  totals p hp := Binary64.holds_of_natAbs_le (htotals p hp)
  count := Binary64.holds_of_natAbs_le hcount

theorem length_mul_le_integerSum {ns : List Int64} {k : Int} (h : ∀ n ∈ ns, k ≤ n.toInt) :
    k * ns.length ≤ integerSum ns := by
  have hsum := (ns.map Int64.toInt).card_nsmul_le_sum k (by simpa using h)
  rw [List.length_map, nsmul_eq_mul, mul_comm] at hsum
  exact hsum

theorem integerSum_le_length_mul {ns : List Int64} {k : Int} (h : ∀ n ∈ ns, n.toInt ≤ k) :
    integerSum ns ≤ k * ns.length := by
  have hsum := (ns.map Int64.toInt).sum_le_card_nsmul k (by simpa using h)
  rw [List.length_map, nsmul_eq_mul, mul_comm] at hsum
  exact hsum

/-- What adds integers to running totals adds binary numbers, and sees no decimal. -/
theorem Totals.ofValues_ints (a : Aggregate) (ns : List Int64) (t : Totals) :
    ∃ t', ofValues a t (ns.map .int) = .ok t' ∧
      t'.floats = ns.foldl (fun x n => x.add (Binary64.ofInt n.toInt)) t.floats ∧
      t'.sawDecimal = t.sawDecimal := by
  induction ns generalizing t with
  | nil => exact ⟨t, rfl, rfl, rfl⟩
  | cons n ns ih => exact ih _

namespace Aggregate

theorem average_apply_ints {ns : List Int64} (hne : ns ≠ []) :
    average.apply (ns.map .int) =
      .ok (.float ((Binary64.total ns).div (Binary64.ofInt ns.length))) := by
  obtain ⟨t, ht, hfloats, hdecimal⟩ := Totals.ofValues_ints average ns {}
  have hmean : t.average ns.length =
      .float ((Binary64.total ns).div (Binary64.ofInt ns.length)) := by
    unfold Totals.average
    rw [hdecimal, hfloats]
    rfl
  rw [← hmean]
  cases ns with
  | nil => exact absurd rfl hne
  | cons n ns =>
    rw [List.map_cons] at ht ⊢
    simp only [apply, ht, List.length_cons, List.length_map]
    rfl

/-- The average of integers is a number, and with nothing rounded before it lies between any two
integers that they lie between. -/
theorem average_of_ints {ns : List Int64} (hne : ns ≠ []) :
    ∃ v mean, average.apply (ns.map .int) = .ok v ∧ Total.ofValue? v = some (.number mean) ∧
      (Unrounded ns → ∀ k, Binary64.Holds k →
        ((∀ n ∈ ns, k ≤ n.toInt) → k * tenTo mean.scale ≤ mean.signed) ∧
        ((∀ n ∈ ns, n.toInt ≤ k) → mean.signed ≤ k * tenTo mean.scale)) := by
  have hcount : 0 < ns.length := List.length_pos_of_ne_nil hne
  obtain ⟨z, hz, hfits, hle⟩ := (Binary64.total_within ns).div hcount
  have hrange : z.units < mantissaLimit * unitsInOne := by
    have hlimit : twoTo 63 < mantissaLimit := by decide
    rw [Binary64.wordUnits_eq] at hle
    exact Nat.lt_of_le_of_lt hle (Nat.mul_lt_mul_of_pos_right hlimit unitsInOne_pos)
  obtain ⟨mean, hmean, hsign, hbounds⟩ := Decimal.ofFinite?_bounds hfits hrange
  refine ⟨_, mean, average_apply_ints hne, ?_, fun hexact k hk => ?_⟩
  · rw [hz]
    show (Decimal.ofFinite? z).map Total.number = _
    rw [hmean]
    rfl
  · obtain ⟨x, hx, hsum⟩ := Binary64.total_exact hexact.terms hexact.totals
    rw [hx] at hz
    obtain ⟨hlower, hupper⟩ := Binary64.div_exact hcount hsum hexact.count hz hk
    obtain ⟨hbelow, habove⟩ := Decimal.signed_between hsign hbounds k
    exact ⟨fun h => hbelow (hlower (length_mul_le_integerSum h)),
      fun h => habove (hupper (integerSum_le_length_mul h))⟩

end Aggregate

namespace Number.Decimal

theorem ofInt64_signed (n : Int64) : (ofInt64 n).signed = n.toInt := by
  rw [ofInt64_eq_whole]
  exact whole_signed _

theorem ofInt64_compare_ne_gt {n : Int64} {x : Decimal} :
    (ofInt64 n).compare x ≠ .gt ↔ n.toInt * tenTo x.scale ≤ x.signed := by
  have hone : ((tenTo (ofInt64 n).scale : Nat) : Int) = 1 := rfl
  unfold compare
  rw [Ne, Int.compare_eq_gt, hone, ofInt64_signed, Int.mul_one, Int.not_lt]

theorem compare_ofInt64_ne_gt {n : Int64} {x : Decimal} :
    x.compare (ofInt64 n) ≠ .gt ↔ x.signed ≤ n.toInt * tenTo x.scale := by
  have hone : ((tenTo (ofInt64 n).scale : Nat) : Int) = 1 := rfl
  unfold compare
  rw [Ne, Int.compare_eq_gt, hone, ofInt64_signed, Int.mul_one, Int.not_lt]

end Number.Decimal

/-! ## Stored words -/

namespace Record

variable {path : Path} {kind : Kind} {row : Record}

/-- The integer that a row stores at a path, if it is a 64-bit word. -/
def word? (path : Path) (row : Record) : Option Int64 :=
  match row.lookup? path.segments with
  | some (.number n) => n.toInt64?
  | _ => none

/-- The kinds that read integers as words. -/
def wordKinds : List Kind := [.byte, .short, .int, .long]

theorem read_of_word {n : Int64} (hkind : kind ∈ wordKinds) (h : row.word? path = some n) :
    row.read path kind = .int n := by
  unfold word? at h
  split at h
  · rename_i m hlookup
    rw [read_of_lookup hlookup]
    simp only [wordKinds, List.mem_cons, List.not_mem_nil, or_false] at hkind
    rcases hkind with rfl | rfl | rfl | rfl
    all_goals simp only [Json.readAs, JsonNumber.readAs, h]
  · cases h

/-- The words that rows store at a path. -/
def storedWords (path : Path) (rows : List Record) : List Int64 := rows.filterMap (word? path)

/-- Rows that store words and nulls give the words. -/
theorem filter_read_eq {rows : List Record} (hkind : kind ∈ wordKinds)
    (h : ∀ row ∈ rows, HasValue path row → (row.word? path).isSome) :
    (rows.map (·.read path kind)).filter (!·.isNull) = (storedWords path rows).map .int := by
  induction rows with
  | nil => rfl
  | cons row rows ih =>
    obtain ⟨hrow, hrows⟩ := List.forall_mem_cons.1 h
    unfold storedWords at ih ⊢
    cases hword : row.word? path with
    | some n =>
      rw [List.map_cons, read_of_word hkind hword, List.filterMap_cons_some hword, List.map_cons,
        ← ih hrows]
      rfl
    | none =>
      have hnull : row.read path kind = .null := by
        refine read_eq_null fun hvalue => ?_
        have hsome := hrow hvalue
        rw [hword] at hsome
        cases hsome
      rw [List.map_cons, hnull, List.filterMap_cons_none hword, ← ih hrows]
      rfl

end Record

namespace Store

variable {store : Store} {q : Query} {path : Path} {kind : Kind} {rows : List Record}

/-- The total made from the result of a scalar query, if it has one. -/
def total? (store : Store) (q : AggregateQuery) : Option Total :=
  (store.scalar q).toOption.bind Total.ofValue?

theorem scalar_of_words {a : Aggregate} {v : Value} (hkind : kind ∈ Record.wordKinds)
    (hrows : store.select q = .ok rows)
    (hstored : ∀ row ∈ rows, Record.HasValue path row → (row.word? path).isSome)
    (ha : a.apply ((Record.storedWords path rows).map .int) = .ok v) :
    store.scalar ⟨q, .field path kind, a⟩ = .ok v := by
  have hprojected : store.projectAll (.field path kind) rows =
      .ok (rows.map (·.read path kind)) := by
    rw [store.projectAll_eq_ok, List.forall₂_map_right_iff, List.forall₂_same]
    exact fun _ _ => rfl
  refine store.scalar_of_values hrows hprojected ?_
  rw [Record.filter_read_eq hkind hstored]
  exact ha

theorem total?_of_words {a : Aggregate} {v : Value} (hkind : kind ∈ Record.wordKinds)
    (hrows : store.select q = .ok rows)
    (hstored : ∀ row ∈ rows, Record.HasValue path row → (row.word? path).isSome)
    (ha : a.apply ((Record.storedWords path rows).map .int) = .ok v) :
    store.total? ⟨q, .field path kind, a⟩ = Total.ofValue? v := by
  rw [total?, scalar_of_words hkind hrows hstored ha]
  rfl

/-- **The average lies between the extremes.** Let the selected rows store 64-bit integers and nulls
in a field of an integral kind, with at least one integer. Then the minimum, the average and the
maximum are numbers. They are in this order if binary numbers hold each of the integers, each
running total in stored order and how many there are. -/
theorem total?_average_between (hkind : kind ∈ Record.wordKinds)
    (hrows : store.select q = .ok rows)
    (hstored : ∀ row ∈ rows, Record.HasValue path row → (row.word? path).isSome)
    (hne : Record.storedWords path rows ≠ []) :
    ∃ least mean greatest, store.total? ⟨q, .field path kind, .min⟩ = some (.number least) ∧
      store.total? ⟨q, .field path kind, .average⟩ = some (.number mean) ∧
      store.total? ⟨q, .field path kind, .max⟩ = some (.number greatest) ∧
      (Unrounded (Record.storedWords path rows) →
        least.compare mean ≠ .gt ∧ mean.compare greatest ≠ .gt) := by
  obtain ⟨l, hl, hmin, hleast⟩ := Aggregate.min.apply_extreme_ints rfl hne
  obtain ⟨g, hg, hmax, hgreatest⟩ := Aggregate.max.apply_extreme_ints rfl hne
  obtain ⟨v, mean, hv, hmean, hbetween⟩ := Aggregate.average_of_ints hne
  refine ⟨.ofInt64 l, mean, .ofInt64 g, total?_of_words hkind hrows hstored hmin,
    (total?_of_words hkind hrows hstored hv).trans hmean,
    total?_of_words hkind hrows hstored hmax, fun hexact => ?_⟩
  rw [Decimal.ofInt64_compare_ne_gt, Decimal.compare_ofInt64_ne_gt]
  constructor
  · refine (hbetween hexact l.toInt (hexact.terms l hl)).1 fun n hn => ?_
    have hnot := hleast n hn
    rwa [Ne, Int.compare_eq_lt, Int.not_lt] at hnot
  · refine (hbetween hexact g.toInt (hexact.terms g hg)).2 fun n hn => ?_
    have hnot := hgreatest n hn
    rwa [Ne, Int.compare_eq_gt, Int.not_lt] at hnot

/-- An aggregate of the numbers of accounts. -/
def numberOf (a : Aggregate) : AggregateQuery :=
  ⟨{ entity := "accounts" }, .field ⟨["number"]⟩ .long, a⟩

/-- Accounts with no number, with the greatest up to which binary numbers hold all, and with a
small one. -/
def smallNumbers : List Record := [("number", .null)] :: numbered [9007199254740992, -5]

def smallAccounts : Store := ⟨[("accounts", smallNumbers)]⟩

theorem total?_average_between_of_smallAccounts :
    ∃ least mean greatest,
      smallAccounts.total? (numberOf .min) = some (.number least) ∧
      smallAccounts.total? (numberOf .average) = some (.number mean) ∧
      smallAccounts.total? (numberOf .max) = some (.number greatest) ∧
      least.compare mean ≠ .gt ∧ mean.compare greatest ≠ .gt := by
  have hkind : Kind.long ∈ Record.wordKinds := by decide
  have hrows : smallAccounts.select { entity := "accounts" } = .ok smallNumbers := rfl
  have hstored : ∀ row ∈ smallNumbers,
      Record.HasValue ⟨["number"]⟩ row → (row.word? ⟨["number"]⟩).isSome := by
    refine List.forall_mem_cons.2 ⟨?_, List.forall_mem_map.2 ?_⟩
    · rintro ⟨v, hv, hnull⟩
      cases hv
      cases hnull
    · have hwords : ∀ n ∈ [9007199254740992, -5], (Record.word? ⟨["number"]⟩
          [("number", .number (.integer n))]).isSome := by decide +kernel
      exact fun n hn _ => hwords n hn
  have hwords : Record.storedWords ⟨["number"]⟩ smallNumbers = [9007199254740992, -5] := by
    decide +kernel
  have hexact : Unrounded [9007199254740992, -5] := by
    refine unrounded_of_natAbs_le ?_ ?_ (by decide +kernel)
    · exact List.forall_mem_cons.2 ⟨by decide +kernel, List.forall_mem_singleton.2
        (by decide +kernel)⟩
    · simp only [← List.mem_inits]
      decide +kernel
  obtain ⟨least, mean, greatest, hmin, hmean, hmax, hbetween⟩ :=
    total?_average_between hkind hrows hstored (by rw [hwords]; nofun)
  rw [hwords] at hbetween
  exact ⟨least, mean, greatest, hmin, hmean, hmax, hbetween hexact⟩

/-- Without the condition the average need not lie between the extremes: the first integer that no
binary number holds is its own minimum, and its average is one less. -/
theorem not_total?_average_between :
    ¬ ∀ (store : Store) (q : Query) (path : Path) (kind : Kind) (rows : List Record),
      kind ∈ Record.wordKinds → store.select q = .ok rows →
      (∀ row ∈ rows, Record.HasValue path row → (row.word? path).isSome) →
      Record.storedWords path rows ≠ [] →
      ∃ least mean greatest, store.total? ⟨q, .field path kind, .min⟩ = some (.number least) ∧
        store.total? ⟨q, .field path kind, .average⟩ = some (.number mean) ∧
        store.total? ⟨q, .field path kind, .max⟩ = some (.number greatest) ∧
        least.compare mean ≠ .gt ∧ mean.compare greatest ≠ .gt := by
  intro h
  have hstored : ∀ row ∈ numbered [9007199254740993],
      Record.HasValue ⟨["number"]⟩ row → (row.word? ⟨["number"]⟩).isSome := by
    intro row hrow _
    rw [List.mem_singleton.1 hrow]
    rfl
  obtain ⟨least, mean, -, hmin, hmean, -, hbetween, -⟩ :=
    h (accounts [9007199254740993]) { entity := "accounts" } ⟨["number"]⟩ .long
      (numbered [9007199254740993]) (by decide) rfl hstored (by decide +kernel)
  have hleast : (accounts [9007199254740993]).total? (numberOf .min) =
      some (.number (.ofInt64 9007199254740993)) := by decide +kernel
  have hrounded : (accounts [9007199254740993]).total? (numberOf .average) =
      some (.number (.ofInt64 9007199254740992)) := by decide +kernel
  cases hleast.symm.trans hmin
  cases hrounded.symm.trans hmean
  exact hbetween (by decide +kernel)

/-- Three equal integers that binary numbers hold have a sum that none holds. -/
example : (accounts (List.replicate 3 6755336056847774)).total? (numberOf .average) =
    some (.number (.ofInt64 6755336056847773)) := by decide +kernel

end Store

end DataGrid
