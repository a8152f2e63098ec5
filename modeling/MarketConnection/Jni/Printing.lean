import MarketConnection.Rest.Requests

/-!
# Jni/Printing — the `operator<<` templates

`trading_MarketChannelImpl.cpp`: a field is streamed as `name: value` and a line end, a tuple field
by field in whatever order `for_each_argument` takes, a vector row by row.  A field is asked for
its value unconditionally, and an empty one throws; what was written before stays written.

**Rows whose fields are all set are printed without a throw** (`printVector_filled`), but not the
same in every order: the entries of a row come out as its fields are visited
(`printVector_any_order`).
-/

namespace Twelvedata

open Unsequenced

variable {Fs : List Field}

/-! ## The stream -/

/-- Code that writes to `std::cout`. -/
abbrev Print := ExceptT Exception (StateM StdString)

/-- What the code returns or throws, and the text written by then. -/
abbrev Print.runOn (x : Print PUnit) (out : StdString) : Except Exception PUnit × StdString :=
  (ExceptT.run x).run out

/-- `std::cout << text`. -/
def write (text : StdString) : Print PUnit := modify (· ++ text)

/-- `std::endl`. -/
def endl : Print PUnit := write "\n".toList

/-- `std::optional::value`. -/
def optionalValue {α : Type} : Option α → Print α
  | some v => pure v
  | none => throw .badOptionalAccess

/-- What `os << value` writes; a `bool` is written as a number. -/
def FieldType.streamed : (t : FieldType) → t.Value → StdString
  | .string, s => s
  | .bool, b => (toString b.toNat).toList

/-! ## The templates -/

/-- `operator<<` of a `RequestField`. -/
def printField (f : Field) (value : Option f.type.Value) : Print PUnit := do
  write f.name
  write ": ".toList
  write (f.type.streamed (← optionalValue value))
  endl

/-- `operator<<` of a `std::tuple`. -/
def printTuple (σ : Order Fs.length) (args : Tuple Fs) : Print PUnit :=
  forEachArgument σ fun i => do
    printField (Fs.get i) (args i)
    write " ".toList

/-- `operator<<` of a `std::vector` of tuples, its elements counted from `k`. -/
def printVector (σ : ℕ → Order Fs.length) : ℕ → List (Tuple Fs) → Print PUnit
  | _, [] => pure ()
  | k, el :: rest => do
    printTuple (σ k) el
    write " ".toList
    printVector σ (k + 1) rest

/-! ## Code that only writes -/

/-- **The code writes `text` and returns.** -/
def Writes (x : Print PUnit) (text : StdString) : Prop :=
  ∀ out, x.runOn out = (.ok ⟨⟩, out ++ text)

theorem writes_write (text : StdString) : Writes (write text) text := fun _ => rfl

theorem writes_pure : Writes (pure ⟨⟩) [] := fun out => by rw [List.append_nil]; rfl

theorem Writes.seq {x y : Print PUnit} {a b : StdString} (hx : Writes x a) (hy : Writes y b) :
    Writes (x >>= fun _ => y) (a ++ b) := by
  intro out
  have hrun : (x >>= fun _ => y).runOn out = match x.runOn out with
      | (.ok _, out') => y.runOn out'
      | (.error e, out') => (.error e, out') := by
    simp only [Print.runOn, ExceptT.run_bind, StateT.run_bind]
    rcases StateT.run x.run out with ⟨e | u, out'⟩ <;> rfl
  rw [hrun, hx out]
  exact (hy (out ++ a)).trans (by rw [List.append_assoc])

/-- Code that writes at every argument. -/
theorem Writes.forM {n : ℕ} {f : Fin n → Print PUnit} {text : Fin n → StdString}
    (h : ∀ i, Writes (f i) (text i)) : ∀ l : List (Fin n), Writes (l.forM f) (l.flatMap text)
  | [] => writes_pure
  | i :: l => (h i).seq (Writes.forM h l)

/-! ## Rows whose fields are set -/

/-- A value in print, in so many words: a string as it is, a `bool` as the digit 0 or 1. -/
def FieldType.printed : (t : FieldType) → t.Value → StdString
  | .string, s => s
  | .bool, false => ['0']
  | .bool, true => ['1']

/-- A set field, as it is printed; nothing for a field that is not. -/
def Field.entry (f : Field) (value : Option f.type.Value) : StdString :=
  value.elim [] fun v => f.name ++ ": ".toList ++ f.type.printed v ++ "\n".toList

/-- A row, as it is printed when the fields are visited in the order `σ`. -/
def Tuple.entries (σ : Order Fs.length) (row : Tuple Fs) : StdString :=
  (visits σ).flatMap fun i => (Fs.get i).entry (row i) ++ " ".toList

/-- Rows, counted from `k`, as they are printed. -/
def tableText (σ : ℕ → Order Fs.length) : ℕ → List (Tuple Fs) → StdString
  | _, [] => []
  | k, row :: rows => row.entries (σ k) ++ " ".toList ++ tableText σ (k + 1) rows

/-- The stream inserter writes these texts. -/
theorem FieldType.streamed_eq_printed (t : FieldType) (v : t.Value) :
    t.streamed v = t.printed v := by
  rcases t with _ | _
  · rfl
  · rcases v with _ | _ <;> rfl

theorem printField_some (f : Field) (v : f.type.Value) :
    Writes (printField f (some v)) (f.entry (some v)) := by
  have hvalue : Writes (do write (f.type.streamed (← optionalValue (some v))); endl)
      (f.type.streamed v ++ "\n".toList) := (writes_write _).seq (writes_write _)
  have hentry : Writes (printField f (some v))
      (f.name ++ (": ".toList ++ (f.type.streamed v ++ "\n".toList))) :=
    (writes_write f.name).seq ((writes_write ": ".toList).seq hvalue)
  rw [Field.entry, Option.elim_some, ← FieldType.streamed_eq_printed, List.append_assoc,
    List.append_assoc]
  exact hentry

theorem printTuple_filled {row : Tuple Fs} (h : row.filled = true) (σ : Order Fs.length) :
    Writes (printTuple σ row) (row.entries σ) := by
  refine Writes.forM (fun i => ?_) (visits σ)
  obtain ⟨v, hv⟩ := Option.isSome_iff_exists.mp (Tuple.filled_iff.mp h i)
  rw [hv]
  exact (printField_some (Fs.get i) v).seq (writes_write _)

/-- **Rows whose fields are all set are printed**, in any order of visits. -/
theorem printVector_filled (σ : ℕ → Order Fs.length) :
    ∀ (rows : List (Tuple Fs)) (k : ℕ), (∀ row ∈ rows, row.filled = true) →
      Writes (printVector σ k rows) (tableText σ k rows)
  | [], _, _ => writes_pure
  | row :: rows, k, h => by
      have hrest := printVector_filled σ rows (k + 1) fun row hrow => h row (.tail _ hrow)
      have hrow := printTuple_filled (h row (.head _)) (σ k)
      rw [tableText, List.append_assoc]
      exact hrow.seq ((writes_write _).seq hrest)

/-! ## Any two orders -/

/-- The entries of a row, in the order its fields are visited. -/
def Tuple.lines (σ : Order Fs.length) (row : Tuple Fs) : List StdString :=
  (visits σ).map fun i => (Fs.get i).entry (row i)

/-- The entries of a row, in the order of the tuple's declaration. -/
def Tuple.declaredLines (row : Tuple Fs) : List StdString :=
  (List.finRange Fs.length).map fun i => (Fs.get i).entry (row i)

theorem Tuple.lines_perm (σ : Order Fs.length) (row : Tuple Fs) :
    (row.lines σ).Perm row.declaredLines := (visits_perm σ).map _

theorem Tuple.lines_one (row : Tuple Fs) : row.lines 1 = row.declaredLines := by
  rw [lines, visits_one, declaredLines]

theorem Tuple.entries_eq (σ : Order Fs.length) (row : Tuple Fs) :
    row.entries σ = (row.lines σ).flatMap (· ++ " ".toList) := by
  rw [lines, List.flatMap_map, entries]

/-- A table, row by row. -/
theorem tableText_eq (σ : ℕ → Order Fs.length) (rows : List (Tuple Fs)) (k : ℕ) :
    tableText σ k rows = (rows.zipIdx k).flatMap fun p =>
      (p.1.lines (σ p.2)).flatMap (· ++ " ".toList) ++ " ".toList := by
  induction rows generalizing k with
  | nil => rfl
  | cons row rows ih => rw [tableText, ih, Tuple.entries_eq, List.zipIdx_cons, List.flatMap_cons]

theorem tableText_congr {σ σ' : ℕ → Order Fs.length} :
    ∀ (rows : List (Tuple Fs)) (k : ℕ), (∀ i < rows.length, σ (k + i) = σ' (k + i)) →
      tableText σ k rows = tableText σ' k rows
  | [], _, _ => rfl
  | row :: rows, k, h => by
      have hfirst : σ k = σ' k := h 0 (Nat.succ_pos _)
      have hrest : tableText σ (k + 1) rows = tableText σ' (k + 1) rows :=
        tableText_congr rows (k + 1) fun i hi => by
          rw [Nat.succ_add_eq_add_succ]
          exact h (i + 1) (Nat.succ_lt_succ hi)
      rw [tableText, tableText, hfirst, hrest]

/-- **Rows are printed in their own order, and each as its entries, once each, in the order its
fields are visited.**  Two orders write the same entries for every row, and the same text when they
agree on the rows there are — as they must with one field at most. -/
theorem printVector_any_order {rows : List (Tuple Fs)} (h : ∀ row ∈ rows, row.filled = true)
    (σ σ' : ℕ → Order Fs.length) (out : StdString) :
    (printVector σ 0 rows).runOn out = (.ok ⟨⟩, out ++ rows.zipIdx.flatMap fun p =>
      (p.1.lines (σ p.2)).flatMap (· ++ " ".toList) ++ " ".toList) ∧
    (∀ (row : Tuple Fs) (k : ℕ), (row.lines (σ k)).Perm (row.lines (σ' k)) ∧
      (row.lines (σ k)).Perm row.declaredLines ∧
      (σ k = 1 → row.lines (σ k) = row.declaredLines)) ∧
    (((∀ k < rows.length, σ k = σ' k) ∨ Fs.length ≤ 1) →
      (printVector σ 0 rows).runOn out = (printVector σ' 0 rows).runOn out) := by
  refine ⟨?_, fun row k => ⟨?_, row.lines_perm _, fun hk => ?_⟩, fun hagree => ?_⟩
  · rw [printVector_filled σ rows 0 h out, tableText_eq]
  · exact (row.lines_perm _).trans (row.lines_perm _).symm
  · rw [hk, row.lines_one]
  · have hsame : ∀ k < rows.length, σ k = σ' k := by
      rcases hagree with hagree | hone
      · exact hagree
      · have : Subsingleton (Fin Fs.length) := Fin.subsingleton_iff_le_one.mpr hone
        exact fun k _ => Subsingleton.elim _ _
    have htext : tableText σ 0 rows = tableText σ' 0 rows :=
      tableText_congr rows 0 fun i hi => by simpa only [Nat.zero_add] using hsame i hi
    rw [printVector_filled σ rows 0 h out, printVector_filled σ' rows 0 h out, htext]

/-- The rows of a listing with one stock. -/
def oneStock : List (Tuple responseFields) := [readRow responseFields completeElement]

theorem oneStock_filled : ∀ row ∈ oneStock, row.filled = true :=
  List.forall_mem_singleton.mpr (by decide)

/-- The name before the symbol. -/
def swapFirst : Order responseFields.length := Equiv.swap ⟨0, by decide⟩ ⟨1, by decide⟩

/-- One stock in two orders: the same entries, of which the first two have changed places. -/
theorem printVector_oneStock :
    (printVector (fun _ => swapFirst) 0 oneStock).runOn [] = (.ok ⟨⟩, oneStock.zipIdx.flatMap
      fun p => (p.1.lines swapFirst).flatMap (· ++ " ".toList) ++ " ".toList) ∧
    (∀ row ∈ oneStock, (row.lines swapFirst).Perm (row.lines 1) ∧
      row.lines 1 = row.declaredLines ∧
      (row.lines swapFirst).take 2 = ["name: X\n".toList, "symbol: X\n".toList]) ∧
    (printVector (fun _ => swapFirst) 0 oneStock).runOn []
      = (printVector (fun k => if k = 0 then swapFirst else 1) 0 oneStock).runOn [] := by
  obtain ⟨htext, hlines, -⟩ :=
    printVector_any_order oneStock_filled (fun _ => swapFirst) (fun _ => 1) []
  obtain ⟨-, -, hagree⟩ := printVector_any_order oneStock_filled (fun _ => swapFirst)
    (fun k => if k = 0 then swapFirst else 1) []
  obtain ⟨-, hdeclared, -⟩ :=
    printVector_any_order oneStock_filled (fun _ => 1) (fun _ => swapFirst) []
  refine ⟨htext, List.forall_mem_singleton.mpr ⟨(hlines _ 0).1, (hdeclared _ 0).2.2 rfl, ?_⟩,
    hagree (.inl fun k hk => ?_)⟩
  · decide
  · obtain rfl : k = 0 := Nat.lt_one_iff.mp hk
    rfl

/-- Two orders, two texts: the entry of the name comes first in the one that visits it first. -/
theorem printVector_not_same_text :
    ¬ ∀ (Fs : List Field) (rows : List (Tuple Fs)), (∀ row ∈ rows, row.filled = true) →
      ∀ (σ σ' : ℕ → Order Fs.length) (out : StdString),
        (printVector σ 0 rows).runOn out = (printVector σ' 0 rows).runOn out := by
  intro h
  have hsame := h responseFields oneStock oneStock_filled (fun _ => 1) (fun _ => swapFirst) []
  have htext := congrArg (fun res => res.2.head?) hsame
  exact absurd htext (by decide)

end Twelvedata
