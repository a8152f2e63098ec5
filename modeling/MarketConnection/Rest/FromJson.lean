import MarketConnection.Foundations.Lists
import MarketConnection.Rest.Types

/-!
# Rest/FromJson — what `from_json` accepts, and what it makes of it

The decoder reads a document through two looks at it: the string under `status` and, when that is
`ok`, the rows under `data`, each read under the fields' own names (`statusOf`, `rowsOf`).
`outcome_fromJson` says its outcome is a function of these two looks (`decode`), whatever the
visiting orders; everything else about it follows from `decode` — also what a throw leaves behind, a
response with the rows before the first that is incomplete (`fromJson_throw_leaves`).
-/

namespace Twelvedata

open Unsequenced Lists

variable {Fs : List Field}

/-! ## Two looks at a document

The program reaches into a document with `at`, `as_string`, `as_array` and `value_to`, each of which
may throw.  A look is the same without exceptions: what there is to find, if anything is. -/

/-- The member of an object under a key. -/
def Json.member? (json : Json) (key : StdString) : Option Json :=
  match json with
  | .object members => members.lookup key
  | _ => none

/-- The value of a type that a JSON value of the right kind holds. -/
def FieldType.ofJson? : (t : FieldType) → Json → Option t.Value
  | .string, .string s => some s
  | .bool, .bool b => some b
  | _, _ => none

/-- A row, read under the fields' own names. -/
def readRow (Fs : List Field) (el : Json) : Tuple Fs :=
  fun i => (el.member? (Fs.get i).name).bind (Fs.get i).type.ofJson?

/-- Every field holds a value. -/
def Tuple.filled (row : Tuple Fs) : Bool := decide (∀ i, (row i).isSome)

theorem Tuple.filled_iff {row : Tuple Fs} : row.filled = true ↔ ∀ i, (row i).isSome :=
  decide_eq_true_iff

/-- The string under `status`, if there is one. -/
def statusOf (json : Json) : Option StdString :=
  (json.member? "status".toList).bind FieldType.string.ofJson?

/-- The rows under `data`, complete or not: an element that is no object is a row without a
value. -/
def rowsOf (Fs : List Field) (json : Json) : Option (List (Tuple Fs)) :=
  match json.member? "data".toList with
  | some (.array elements) => some (elements.map (readRow Fs))
  | _ => none

theorem statusOf_eq_some {json : Json} {s : StdString} :
    statusOf json = some s ↔ json.member? "status".toList = some (.string s) := by
  rw [statusOf, Option.bind_eq_some_iff]
  constructor
  · rintro ⟨_ | _ | _ | _ | _ | t | _ | _, hm, ht⟩ <;> simp_all [FieldType.ofJson?]
  · exact fun h => ⟨_, h, rfl⟩

theorem rowsOf_eq_some {json : Json} {rows : List (Tuple Fs)} :
    rowsOf Fs json = some rows ↔
      ∃ elements, json.member? "data".toList = some (.array elements) ∧
        rows = elements.map (readRow Fs) := by
  rw [rowsOf]
  split
  · next elements h =>
    rw [h, Option.some.injEq]
    exact ⟨fun hr => ⟨elements, rfl, hr.symm⟩, by rintro ⟨_, ⟨rfl⟩, rfl⟩; rfl⟩
  · next h => exact iff_of_false (by simp) (by rintro ⟨elements, hm, -⟩; exact h elements hm)

/-- **The outcome, as a function of the two looks**: what is returned (`none` for a throw) and the
response afterwards.  The rows before the first incomplete one are kept by a throw. -/
def decode (status : Option StdString) (rows : Option (List (Tuple Fs)))
    (response : ResponseBase Fs) : Option ℤ × ResponseBase Fs :=
  match status with
  | none => (none, response)
  | some s =>
    if s ≠ "ok".toList then (some 1, { response with status := s })
    else
      match rows with
      | none => (none, { response with status := s })
      | some rows =>
        (if rows.all Tuple.filled then some 0 else none,
          { data := response.data ++ rows.takeWhile Tuple.filled, status := s })

theorem decode_of_ne_ok {s : StdString} (hs : s ≠ "ok".toList) (rows : Option (List (Tuple Fs)))
    (response : ResponseBase Fs) :
    decode (some s) rows response = (some 1, { response with status := s }) := if_pos hs

theorem decode_ok_none (response : ResponseBase Fs) :
    decode (some "ok".toList) none response = (none, { response with status := "ok".toList }) := rfl

theorem decode_ok_some (rows : List (Tuple Fs)) (response : ResponseBase Fs) :
    decode (some "ok".toList) (some rows) response
      = (if rows.all Tuple.filled then some 0 else none,
          { data := response.data ++ rows.takeWhile Tuple.filled, status := "ok".toList }) := rfl

/-- A result without the identity of the exception. -/
def outcome {α : Type} (res : Except Exception α × ResponseBase Fs) :
    Option α × ResponseBase Fs := (res.1.toOption, res.2)

/-! ## The accessors, read as looks

Which exception an accessor throws is of no interest here (`Rest/Blame` says which): it is compared
with its look through `Except.toOption`. -/

theorem toOption_at (json : Json) (key : StdString) :
    (json.atKey key).toOption = json.member? key := by
  rcases json with _ | _ | _ | _ | _ | _ | _ | members
  case object =>
    simp only [Json.atKey, Json.asObject, Json.member?, bind, Except.bind]
    rcases members.lookup key with _ | v <;> rfl
  all_goals rfl

/-- A chain of accessors finds what each of them finds in turn. -/
theorem toOption_bind {α β : Type} (x : Except Exception α) (f : α → Except Exception β) :
    (x >>= f).toOption = x.toOption.bind fun a => (f a).toOption := by
  rcases x with e | a <;> rfl

theorem toOption_valueTo (t : FieldType) (json : Json) :
    (valueTo t json).toOption = t.ofJson? json := by
  rcases t with _ | _ <;> rcases json with _ | _ | _ | _ | _ | _ | _ | _ <;> rfl

theorem toOption_readField (el : Json) (i : Fin Fs.length) :
    (readField el i).toOption = readRow Fs el i := by
  rw [readField, toOption_bind, toOption_at, readRow]
  exact congrArg _ (funext fun v => toOption_valueTo _ v)

/-- The expression that reads the status… -/
theorem toOption_status (json : Json) :
    (json.atKey "status".toList >>= Json.asString).toOption = statusOf json := by
  rw [toOption_bind, toOption_at, statusOf]
  exact congrArg _ (funext fun v => toOption_valueTo .string v)

/-- …and the one the loop runs over. -/
theorem toOption_data (json : Json) :
    (json.atKey "data".toList >>= Json.asArray).toOption.map (List.map (readRow Fs))
      = rowsOf Fs json := by
  rw [toOption_bind, toOption_at, rowsOf]
  rcases json.member? "data".toList with _ | v
  · rfl
  · rcases v with _ | _ | _ | _ | _ | _ | _ | _ <;> rfl

/-! ## One row

The arguments of the braces are read in an order the compiler chose.  Each is a field of its own, so
the order decides nothing but which of several exceptions comes first. -/

/-- A row of which everything can be read is read, in any order. -/
theorem decodeRow_filled {el : Json} (h : (readRow Fs el).filled = true) (σ : Order Fs.length) :
    decodeRow σ el = .ok (readRow Fs el) := by
  have hsome := Tuple.filled_iff.mp h
  have hread : ∀ i, readField el i = .ok ((readRow Fs el i).get (hsome i)) := fun i =>
    eq_ok_of_toOption ((toOption_readField el i).trans (Option.some_get _).symm)
  rw [decodeRow, forEachArgument, forEach_assign hread]
  simp only [Option.some_get]
  rfl

/-- A row of which something cannot be read throws, in any order. -/
theorem decodeRow_not_filled {el : Json} (h : (readRow Fs el).filled = false)
    (σ : Order Fs.length) : ∃ e, decodeRow σ el = .error e := by
  have hnone : ∃ (i : Fin Fs.length) (e : Exception), readField el i = .error e := by
    have hnot : ¬ ∀ i, (readRow Fs el i).isSome := fun hall =>
      Bool.false_ne_true (h.symm.trans (Tuple.filled_iff.mpr hall))
    obtain ⟨i, hi⟩ := not_forall.mp hnot
    exact ⟨i, eq_error_of_toOption
      ((toOption_readField el i).trans (Option.not_isSome_iff_eq_none.mp hi))⟩
  obtain ⟨i, e, -, hrun⟩ := forEach_assign_error σ (Tuple.empty Fs) hnone
  exact ⟨e, by rw [decodeRow, forEachArgument, hrun]; rfl⟩

/-! ## The loop over the rows -/

/-- One statement after the other: an exception ends the call, and leaves the response as it is by
then. -/
theorem runOn_bind {α β : Type} (x : FromJson Fs α) (f : α → FromJson Fs β)
    (response : ResponseBase Fs) :
    (x >>= f).runOn response
      = match x.runOn response with
        | (.ok a, response') => (f a).runOn response'
        | (.error e, response') => (.error e, response') := by
  rcases h : x.runOn response with ⟨e | a, response'⟩
  · simp only [FromJson.runOn, ExceptT.run_bind, StateT.run_bind] at h ⊢
    rw [h]
    rfl
  · simp only [FromJson.runOn, ExceptT.run_bind, StateT.run_bind] at h ⊢
    rw [h]
    rfl

theorem runOn_ofExcept {α : Type} (x : Except Exception α) (response : ResponseBase Fs) :
    (MonadExcept.ofExcept x : FromJson Fs α).runOn response = (x, response) := by
  rcases x with e | a <;> rfl

theorem runOn_modify (f : ResponseBase Fs → ResponseBase Fs) (response : ResponseBase Fs) :
    (modify f : FromJson Fs PUnit).runOn response = (.ok ⟨⟩, f response) := rfl

/-- **The loop appends complete rows and throws at the first that is not** — whatever order each
turn visits the fields in. -/
theorem outcome_pushRows (σ : ℕ → Order Fs.length) :
    ∀ (els : List Json) (k : ℕ) (response : ResponseBase Fs),
      outcome ((pushRows σ k els).runOn response)
        = (if (els.map (readRow Fs)).all Tuple.filled then some PUnit.unit else none,
            { response with
              data := response.data ++ (els.map (readRow Fs)).takeWhile Tuple.filled })
  | [], _, response => by simp [pushRows, outcome, pure, ExceptT.pure, ExceptT.mk, ExceptT.run,
      StateT.pure, StateT.run, Except.toOption]
  | el :: els, k, response => by
      -- a complete row is pushed, and the rest goes on from there; any other row is the last
      cases h : (readRow Fs el).filled with
      | true =>
        have ih := outcome_pushRows σ els (k + 1)
          { response with data := response.data ++ [readRow Fs el] }
        have hstep : (pushRows σ k (el :: els)).runOn response
            = (pushRows σ (k + 1) els).runOn
                { response with data := response.data ++ [readRow Fs el] } := by
          rw [pushRows, decodeRow_filled h]
          rfl
        rw [hstep, ih]
        simp [h]
      | false =>
        obtain ⟨e, he⟩ := decodeRow_not_filled h (σ k)
        have hstep : (pushRows σ k (el :: els)).runOn response = (.error e, response) := by
          rw [pushRows, he]
          rfl
        rw [hstep]
        simp [outcome, h, Except.toOption]

/-! ## The whole document -/

/-- The call, look by look. -/
theorem runOn_fromJson (σ : ℕ → Order Fs.length) (json : Json) (response : ResponseBase Fs) :
    (fromJson σ json).runOn response
      = match json.atKey "status".toList >>= Json.asString with
        | .error e => (.error e, response)
        | .ok s =>
          if s ≠ "ok".toList then (.ok 1, { response with status := s })
          else match json.atKey "data".toList >>= Json.asArray with
            | .error e => (.error e, { response with status := s })
            | .ok els =>
              match (pushRows σ 0 els).runOn { response with status := s } with
              | (.ok _, response') => (.ok 0, response')
              | (.error e, response') => (.error e, response') := by
  rw [fromJson, runOn_bind, runOn_ofExcept]
  rcases json.atKey "status".toList >>= Json.asString with e | s
  · rfl
  simp only [runOn_bind, runOn_modify]
  by_cases hok : s = "ok".toList
  · rw [if_neg (not_not.mpr hok), if_neg (not_not.mpr hok), runOn_bind, runOn_ofExcept]
    rcases json.atKey "data".toList >>= Json.asArray with e | els
    · rfl
    · simp only [runOn_bind]
      rcases (pushRows σ 0 els).runOn { response with status := s } with ⟨e | u, response'⟩ <;> rfl
  · rw [if_pos hok, if_pos hok]
    rfl

/-- **`from_json` sees a document only through its status and its rows**, and the visiting orders
not at all. -/
theorem outcome_fromJson (σ : ℕ → Order Fs.length) (json : Json) (response : ResponseBase Fs) :
    outcome ((fromJson σ json).runOn response)
      = decode (statusOf json) (rowsOf Fs json) response := by
  rw [runOn_fromJson, ← toOption_status, ← toOption_data]
  -- look by look, as far as the call gets
  rcases json.atKey "status".toList >>= Json.asString with e | s
  · rfl
  by_cases hok : s = "ok".toList
  swap
  · simp only [decode, Except.toOption, if_pos hok]
    rfl
  simp only [decode, Except.toOption, if_neg (not_not.mpr hok)]
  rcases json.atKey "data".toList >>= Json.asArray with e | els
  · rfl
  have hrows := outcome_pushRows σ els 0 { response with status := s }
  simp only [Option.map_some]
  -- all that is left of the loop is whether it threw, and the response
  generalize (pushRows σ 0 els).runOn { response with status := s } = res at hrows ⊢
  obtain ⟨e | u, response'⟩ := res
  · obtain ⟨hres, rfl⟩ := Prod.mk.inj hrows
    refine Prod.ext ?_ rfl
    by_cases hall : (els.map (readRow Fs)).all Tuple.filled = true
    · rw [if_pos hall] at hres
      cases hres
    · exact (if_neg hall).symm
  · obtain ⟨hres, rfl⟩ := Prod.mk.inj hrows
    refine Prod.ext ?_ rfl
    by_cases hall : (els.map (readRow Fs)).all Tuple.filled = true
    · exact (if_pos hall).symm
    · rw [if_neg hall] at hres
      cases hres

/-! ## The format, in the document's own words -/

/-- An element holds every field's name, each with a value of that field's kind. -/
def Json.HoldsFields (Fs : List Field) (el : Json) : Prop :=
  ∀ i : Fin Fs.length, ∃ v, el.member? (Fs.get i).name = some v ∧
    ((Fs.get i).type.ofJson? v).isSome

/-- …and is an object, even if there is no field to look up in it. -/
def Json.IsObjectHolding (Fs : List Field) (el : Json) : Prop :=
  (∃ members, el = .object members) ∧ el.HoldsFields Fs

/-- A document outside the format whose rows satisfy `P`: no string under `status`, or `ok` there
and no array under `data` of rows that all satisfy `P`. -/
def Json.Malformed (P : Json → Prop) (json : Json) : Prop :=
  (¬ ∃ s, json.member? "status".toList = some (.string s)) ∨
    json.member? "status".toList = some (.string "ok".toList) ∧
      ¬ ∃ els, json.member? "data".toList = some (.array els) ∧ ∀ el ∈ els, P el

/-- A row is complete when its element has everything in it. -/
theorem readRow_filled_iff {el : Json} : (readRow Fs el).filled = true ↔ el.HoldsFields Fs := by
  rw [Tuple.filled_iff]
  refine forall_congr' fun i => ?_
  rw [readRow, Option.isSome_bind, Option.any_eq_true]

/-- With a field to look up, only an object can hold it. -/
theorem holdsFields_iff_isObjectHolding (hFs : Fs ≠ []) {el : Json} :
    el.HoldsFields Fs ↔ el.IsObjectHolding Fs := by
  refine ⟨fun h => ⟨?_, h⟩, And.right⟩
  obtain ⟨v, hv, -⟩ := h ⟨0, List.length_pos_of_ne_nil hFs⟩
  rcases el with _ | _ | _ | _ | _ | _ | _ | members
  case object => exact ⟨members, rfl⟩
  all_goals cases hv

theorem Json.malformed_congr {P Q : Json → Prop} (h : ∀ el, P el ↔ Q el) (json : Json) :
    json.Malformed P ↔ json.Malformed Q := by
  rw [funext fun el => propext (h el)]

theorem all_filled_iff {els : List Json} :
    (els.map (readRow Fs)).all Tuple.filled = true ↔ ∀ el ∈ els, el.HoldsFields Fs := by
  simp only [List.all_map, List.all_eq_true, Function.comp_apply, readRow_filled_iff]

/-- **The looks fail on malformed documents only**: a throw, in the document's own words. -/
theorem decode_fst_eq_none {json : Json} {response : ResponseBase Fs} :
    (decode (statusOf json) (rowsOf Fs json) response).1 = none
      ↔ json.Malformed (Json.HoldsFields Fs) := by
  rcases hs : statusOf json with _ | s
  · -- there is no status to read
    refine iff_of_true rfl (.inl ?_)
    rintro ⟨s, h⟩
    exact absurd (hs.symm.trans (statusOf_eq_some.mpr h)) (by simp)
  have hstatus := statusOf_eq_some.mp hs
  by_cases hok : s = "ok".toList
  swap
  · rw [decode_of_ne_ok hok]
    refine iff_of_false (by simp) ?_
    rintro (hno | ⟨h, -⟩)
    · exact hno ⟨s, hstatus⟩
    · exact hok (Json.string.inj (Option.some.inj (hstatus.symm.trans h)))
  subst hok
  rcases hr : rowsOf Fs json with _ | rows
  · -- the status is `ok`, and there is no array
    refine iff_of_true rfl (.inr ⟨hstatus, ?_⟩)
    rintro ⟨els, hels, -⟩
    exact absurd (hr.symm.trans (rowsOf_eq_some.mpr ⟨els, hels, rfl⟩)) (by simp)
  obtain ⟨els, hels, rfl⟩ := rowsOf_eq_some.mp hr
  rw [decode_ok_some]
  by_cases hrows : ∀ el ∈ els, el.HoldsFields Fs
  · rw [if_pos (all_filled_iff.mpr hrows)]
    refine iff_of_false (by simp) ?_
    rintro (hno | ⟨-, hno⟩)
    · exact hno ⟨_, hstatus⟩
    · exact hno ⟨els, hels, hrows⟩
  · rw [if_neg (mt all_filled_iff.mp hrows)]
    refine iff_of_true rfl (.inr ⟨hstatus, ?_⟩)
    rintro ⟨els', hels', hrows'⟩
    obtain rfl : els = els' := Json.array.inj (Option.some.inj (hels.symm.trans hels'))
    exact hrows hrows'

/-- A status other than `ok` is what `1` is returned for. -/
theorem decode_fst_eq_one {json : Json} {response : ResponseBase Fs} :
    (decode (statusOf json) (rowsOf Fs json) response).1 = some 1
      ↔ ∃ s, s ≠ "ok".toList ∧ json.member? "status".toList = some (.string s) := by
  simp only [← statusOf_eq_some]
  rcases statusOf json with _ | s
  · exact iff_of_false nofun nofun
  by_cases hok : s = "ok".toList
  swap
  · rw [decode_of_ne_ok hok]
    exact iff_of_true rfl ⟨s, hok, rfl⟩
  refine iff_of_false ?_ (by rintro ⟨_, hne, ⟨rfl⟩⟩; exact hne hok)
  subst hok
  rcases rowsOf Fs json with _ | rows
  · rw [decode_ok_none]
    exact nofun
  · rw [decode_ok_some]
    by_cases hall : rows.all Tuple.filled = true
    · simp [hall]
    · simp [hall]

/-- A document within the format whose status is `ok`: every row is appended. -/
theorem decode_ok {json : Json} (response : ResponseBase Fs)
    (hformat : ¬ json.Malformed (Json.HoldsFields Fs))
    (hok : json.member? "status".toList = some (.string "ok".toList)) :
    ∃ els, json.member? "data".toList = some (.array els) ∧ (∀ el ∈ els, el.HoldsFields Fs) ∧
      decode (statusOf json) (rowsOf Fs json) response
        = (some 0, { data := response.data ++ els.map (readRow Fs), status := "ok".toList }) := by
  obtain ⟨els, hels, hrows⟩ := not_not.mp fun hno => hformat (.inr ⟨hok, hno⟩)
  have hall : (els.map (readRow Fs)).all Tuple.filled = true := all_filled_iff.mpr hrows
  refine ⟨els, hels, hrows, ?_⟩
  rw [statusOf_eq_some.mpr hok, rowsOf_eq_some.mpr ⟨els, hels, rfl⟩, decode_ok_some, if_pos hall,
    List.takeWhile_eq_self_iff.mpr (List.all_eq_true.mp hall)]

/-- The parts of an outcome: the response, … -/
theorem outcome_snd {α : Type} (res : Except Exception α × ResponseBase Fs) :
    (outcome res).2 = res.2 := rfl

/-- …a throw, and… -/
theorem outcome_fst_eq_none {α : Type} {res : Except Exception α × ResponseBase Fs} :
    (outcome res).1 = none ↔ ∃ e, res.1 = .error e := by
  obtain ⟨e | a, r⟩ := res <;> simp [outcome, Except.toOption]

/-- …a return. -/
theorem outcome_fst_eq_some {α : Type} {res : Except Exception α × ResponseBase Fs} {a : α} :
    (outcome res).1 = some a ↔ res.1 = .ok a := by
  obtain ⟨e | b, r⟩ := res <;> simp [outcome, Except.toOption]

/-- **`from_json` throws exactly on documents outside its format.** -/
theorem fromJson_throws_iff (σ : ℕ → Order Fs.length) (json : Json) (response : ResponseBase Fs) :
    (∃ e, ((fromJson σ json).runOn response).1 = .error e)
      ↔ json.Malformed (Json.HoldsFields Fs) := by
  rw [← outcome_fst_eq_none, outcome_fromJson, decode_fst_eq_none]

/-- **`from_json` accepts exactly its format and decodes it completely**, for every field list,
prior response and visiting order.  A field list without fields looks nothing up in an element, so
there the elements may be anything. -/
theorem fromJson_exact (σ : ℕ → Order Fs.length) (json : Json) (response : ResponseBase Fs) :
    ((∃ e, ((fromJson σ json).runOn response).1 = .error e)
      ↔ json.Malformed (Json.HoldsFields Fs)) ∧
    (Fs ≠ [] → ((∃ e, ((fromJson σ json).runOn response).1 = .error e)
      ↔ json.Malformed (Json.IsObjectHolding Fs))) ∧
    (((fromJson σ json).runOn response).1 = .ok 1
      ↔ ∃ s, s ≠ "ok".toList ∧ json.member? "status".toList = some (.string s)) ∧
    (∀ s, s ≠ "ok".toList → json.member? "status".toList = some (.string s) →
      (fromJson σ json).runOn response = (.ok 1, { response with status := s })) ∧
    (¬ json.Malformed (Json.HoldsFields Fs) →
      json.member? "status".toList = some (.string "ok".toList) →
      ∃ els, json.member? "data".toList = some (.array els) ∧ (∀ el ∈ els, el.HoldsFields Fs) ∧
        (fromJson σ json).runOn response
          = (.ok 0, { data := response.data ++ els.map (readRow Fs), status := "ok".toList })) ∧
    (∀ (σ' : ℕ → Order Fs.length) (json' : Json), statusOf json' = statusOf json →
      rowsOf Fs json' = rowsOf Fs json →
      outcome ((fromJson σ' json').runOn response) = outcome ((fromJson σ json).runOn response)) := by
  have hout := outcome_fromJson σ json response
  have hthrow := fromJson_throws_iff σ json response
  have hone : ((fromJson σ json).runOn response).1 = .ok 1
      ↔ ∃ s, s ≠ "ok".toList ∧ json.member? "status".toList = some (.string s) := by
    rw [← outcome_fst_eq_some, hout, decode_fst_eq_one]
  refine ⟨hthrow, fun hFs => ?_, hone, fun s hne hs => ?_, fun hformat hok => ?_,
    fun σ' json' hs hr => ?_⟩
  · rw [hthrow, Json.malformed_congr fun _ => holdsFields_iff_isObjectHolding hFs]
  · refine Prod.ext (hone.mpr ⟨s, hne, hs⟩) ?_
    rw [← outcome_snd, hout, statusOf_eq_some.mpr hs, decode_of_ne_ok hne]
  · obtain ⟨els, hels, hrows, hdecode⟩ := decode_ok response hformat hok
    rw [hdecode] at hout
    refine ⟨els, hels, hrows, Prod.ext (outcome_fst_eq_some.mp (by rw [hout])) ?_⟩
    rw [← outcome_snd, hout]
  · rw [hout, outcome_fromJson, hs, hr]

/-- A response type without fields, and an element that is no object: it is accepted. -/
theorem fromJson_accepts_null :
    (Json.object [("status".toList, .string "ok".toList), ("data".toList, .array [.null])]).Malformed
        (Json.IsObjectHolding []) ∧
      ((fromJson (fun _ => 1) (.object [("status".toList, .string "ok".toList),
          ("data".toList, .array [.null])]) : FromJson [] ℤ).runOn {}).1 = .ok 0 := by
  refine ⟨.inr ⟨rfl, ?_⟩, rfl⟩
  rintro ⟨els, hels, hrows⟩
  obtain rfl : [Json.null] = els := Json.array.inj (Option.some.inj hels)
  obtain ⟨⟨members, hobj⟩, -⟩ := hrows .null List.mem_cons_self
  cases hobj

/-! ## What a throw leaves behind -/

/-- `from_json` gives up on the rows after `good`: the next element lacks a field, or there are no
rows at all. -/
def Json.BreaksAfter (Fs : List Field) (json : Json) (good : List Json) : Prop :=
  (good = [] ∧ ¬ ∃ els, json.member? "data".toList = some (.array els)) ∨
    ∃ bad rest, json.member? "data".toList = some (.array (good ++ bad :: rest)) ∧
      (∀ el ∈ good, el.HoldsFields Fs) ∧ ¬ bad.HoldsFields Fs

/-- **The rows kept by a throw** are those of the elements before the break. -/
theorem decode_of_malformed {json : Json}
    (hok : json.member? "status".toList = some (.string "ok".toList))
    (hrows : ¬ ∃ els, json.member? "data".toList = some (.array els) ∧
      ∀ el ∈ els, el.HoldsFields Fs) (response : ResponseBase Fs) :
    ∃ good, json.BreaksAfter Fs good ∧ (decode (statusOf json) (rowsOf Fs json) response).2
      = { data := response.data ++ good.map (readRow Fs), status := "ok".toList } := by
  rw [statusOf_eq_some.mpr hok]
  by_cases hdata : ∃ els, json.member? "data".toList = some (.array els)
  · -- some element of the array is not complete: the break is at the first of them
    obtain ⟨els, hels⟩ := hdata
    have hall : (els.all fun el => (readRow Fs el).filled) = false := by
      apply Bool.eq_false_iff.mpr
      intro hall
      exact hrows ⟨els, hels, fun el hel =>
        readRow_filled_iff.mp (List.all_eq_true.mp hall el hel)⟩
    obtain ⟨good, bad, rest, rfl, hgood, hbad, htake⟩ := exists_takeWhile_eq hall
    have hkept : ((good ++ bad :: rest).map (readRow Fs)).takeWhile Tuple.filled
        = good.map (readRow Fs) := List.takeWhile_map.trans (congrArg _ htake)
    have hbreak : ¬ bad.HoldsFields Fs := fun h =>
      Bool.false_ne_true (hbad.symm.trans (readRow_filled_iff.mpr h))
    refine ⟨good, .inr ⟨bad, rest, hels, ?_, hbreak⟩, ?_⟩
    · exact fun el hel => readRow_filled_iff.mp (hgood el hel)
    · rw [rowsOf_eq_some.mpr ⟨_, hels, rfl⟩, decode_ok_some, hkept]
  · -- without an array there is no row to keep
    have hnone : rowsOf Fs json = none := by
      apply Option.eq_none_iff_forall_ne_some.mpr
      intro rows h
      obtain ⟨els, hels, -⟩ := rowsOf_eq_some.mp h
      exact hdata ⟨els, hels⟩
    refine ⟨[], .inl ⟨rfl, hdata⟩, ?_⟩
    rw [hnone, decode_ok_none, List.map_nil, List.append_nil]

/-- It gives up once. -/
theorem Json.BreaksAfter.eq_nil {json : Json} {good : List Json} (h : json.BreaksAfter Fs good)
    (hfirst : json.BreaksAfter Fs []) : good = [] := by
  rcases h with ⟨hnil, -⟩ | ⟨bad, rest, hels, hgood, -⟩
  · exact hnil
  rcases hfirst with ⟨-, hno⟩ | ⟨bad', rest', hels', -, hbad'⟩
  · exact absurd ⟨_, hels⟩ hno
  rcases good with _ | ⟨el, good⟩
  · rfl
  · have hcons := Json.array.inj (Option.some.inj (hels.symm.trans hels'))
    obtain ⟨rfl, -⟩ := List.cons.inj hcons
    exact absurd (hgood el List.mem_cons_self) hbad'

/-- **What a throw leaves behind**: the response as it was, if no status could be read, and else a
response of status `ok` that has the rows before the break as well.  So it is the response as it was
exactly when there is no status to read, or the status was `ok` before and the very first row, or
`data` itself, is missing something. -/
theorem fromJson_throw_leaves (σ : ℕ → Order Fs.length) {json : Json} {response : ResponseBase Fs}
    (h : ∃ e, ((fromJson σ json).runOn response).1 = .error e) :
    ((¬ ∃ s, json.member? "status".toList = some (.string s)) ∧
        ((fromJson σ json).runOn response).2 = response ∨
      json.member? "status".toList = some (.string "ok".toList) ∧
        ∃ good, json.BreaksAfter Fs good ∧ ((fromJson σ json).runOn response).2
          = { data := response.data ++ good.map (readRow Fs), status := "ok".toList }) ∧
    (((fromJson σ json).runOn response).2 = response ↔
      (¬ ∃ s, json.member? "status".toList = some (.string s)) ∨
        response.status = "ok".toList ∧ json.BreaksAfter Fs []) := by
  have hout : ((fromJson σ json).runOn response).2
      = (decode (statusOf json) (rowsOf Fs json) response).2 := by
    rw [← outcome_fromJson σ, outcome_snd]
  rcases (fromJson_throws_iff σ json response).mp h with hno | ⟨hok, hrows⟩
  · have hnone : statusOf json = none :=
      Option.eq_none_iff_forall_ne_some.mpr fun s hs => hno ⟨s, statusOf_eq_some.mp hs⟩
    have hsame : ((fromJson σ json).runOn response).2 = response := by rw [hout, hnone]; rfl
    exact ⟨.inl ⟨hno, hsame⟩, iff_of_true hsame (.inl hno)⟩
  · obtain ⟨good, hbreak, hdecode⟩ := decode_of_malformed hok hrows response
    have hleft := hout.trans hdecode
    refine ⟨.inr ⟨hok, good, hbreak, hleft⟩, ?_⟩
    rw [hleft]
    constructor
    · intro hsame
      have hgood : good = [] := by
        have hlen := congrArg (fun r => r.data.length) hsame
        rw [List.length_append, List.length_map] at hlen
        exact List.length_eq_zero_iff.mp (by omega)
      exact .inr ⟨(congrArg ResponseBase.status hsame).symm, hgood ▸ hbreak⟩
    · rintro (hno | ⟨hstatus, hfirst⟩)
      · exact absurd ⟨_, hok⟩ hno
      · rw [hbreak.eq_nil hfirst, List.map_nil, List.append_nil, ← hstatus]

/-- One complete row, then an element that is no object. -/
def brokenListing : Json :=
  .object [("status".toList, .string "ok".toList), ("data".toList, .array [completeElement, .null])]

/-- The second element is what it throws at. -/
theorem fromJson_brokenListing_throws :
    ∃ e, ((fromJson (fun _ => 1) brokenListing).runOn ({} : GetStocksListResponse)).1 = .error e :=
  ⟨.notObject, rfl⟩

theorem fromJson_leaves_first_row :
    ((fromJson (fun _ => 1) brokenListing).runOn ({} : GetStocksListResponse)).2 ≠ {} := by
  refine mt (fromJson_throw_leaves (fun _ => 1) fromJson_brokenListing_throws).2.mp ?_
  rintro (hno | ⟨hstatus, -⟩)
  · exact hno ⟨_, rfl⟩
  · cases hstatus

/-- The status of the document and its first row stay in the response the exception leaves. -/
theorem fromJson_not_atomic :
    ¬ ∀ (Fs : List Field) (σ : ℕ → Order Fs.length) (json : Json) (response : ResponseBase Fs),
      (∃ e, ((fromJson σ json).runOn response).1 = .error e) →
      ((fromJson σ json).runOn response).2 = response := by
  intro h
  have hsame := h responseFields (fun _ => 1) brokenListing {} fromJson_brokenListing_throws
  have hlength : (0 : ℕ) = 1 := (congrArg (fun r => r.data.length) hsame).symm
  cases hlength

end Twelvedata
