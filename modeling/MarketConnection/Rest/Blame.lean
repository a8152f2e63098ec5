import MarketConnection.Rest.FromJson

/-!
# Rest/Blame — which exception leaves `from_json`

Whether a document is decoded does not depend on the orders in which fields are visited, but the
exception that says why not does.  `Json.Blames` lists, in the document's own words, the exceptions
there are to choose from: **these are thrown, each in some order, and no others**
(`fromJson_throws_which`).  Each of them is about a member that was asked for: what else a document
holds, and in which order, is never looked at (`fromJson_retold`).
-/

namespace Twelvedata

open Unsequenced Lists

variable {Fs : List Field}

/-! ## Complaints

A complaint is about one member of one value, and there is at most one: the value is no object, has
no such member, or has one of another type. -/

/-- The exception about a value of another type. -/
def FieldType.mismatch : FieldType → Exception
  | .string => .notString
  | .bool => .notBool

/-- What there is to complain about in the member of that name and type. -/
def Field.complaint (f : Field) : Json → Option Exception
  | .object members =>
    match members.lookup f.name with
    | none => some (.outOfRange f.name)
    | some v => if (f.type.ofJson? v).isSome then none else some f.type.mismatch
  | _ => some .notObject

/-- …and in the array under a name. -/
def arrayComplaint (name : StdString) : Json → Option Exception
  | .object members =>
    match members.lookup name with
    | none => some (.outOfRange name)
    | some (.array _) => none
    | some _ => some .notArray
  | _ => some .notObject

/-- The status, as a field of the document. -/
def statusField : Field := ⟨"status".toList, .string⟩

/-- **The exceptions a document gives cause for**: about its status, about its rows as a whole, or
about a field of the first row that is incomplete. -/
inductive Json.Blames (Fs : List Field) (json : Json) : Exception → Prop
  | status {x : Exception} (h : statusField.complaint json = some x) : Json.Blames Fs json x
  | data {x : Exception} (hok : statusOf json = some "ok".toList)
      (h : arrayComplaint "data".toList json = some x) : Json.Blames Fs json x
  | row {x : Exception} {before after : List Json} {el : Json}
      (hok : statusOf json = some "ok".toList)
      (hdata : json.member? "data".toList = some (.array (before ++ el :: after)))
      (hbefore : ∀ b ∈ before, b.HoldsFields Fs) (i : Fin Fs.length)
      (h : (Fs.get i).complaint el = some x) : Json.Blames Fs json x

/-! ## Reading a member -/

/-- A conversion throws the mismatch of its type, and nothing else. -/
theorem valueTo_error_iff {t : FieldType} {v : Json} {x : Exception} :
    valueTo t v = .error x ↔ (t.ofJson? v).isSome = false ∧ x = t.mismatch := by
  rcases t with _ | _ <;> rcases v with _ | _ | _ | _ | _ | _ | _ | _ <;>
    simp [valueTo, Json.asString, Json.asBool, FieldType.ofJson?, FieldType.mismatch, eq_comm]

/-- In an object, a key is found or is out of range. -/
theorem atKey_object (members : List (StdString × Json)) (key : StdString) :
    (Json.object members).atKey key
      = (members.lookup key).elim (.error (.outOfRange key)) .ok := by
  simp only [Json.atKey, Json.asObject, bind, Except.bind]
  rcases members.lookup key with _ | v <;> rfl

/-- **What is thrown about a member is the complaint about it.** -/
theorem atKey_valueTo_error_iff {f : Field} {json : Json} {x : Exception} :
    (json.atKey f.name >>= valueTo f.type) = .error x ↔ f.complaint json = some x := by
  rcases json with _ | _ | _ | _ | _ | _ | _ | members
  case object =>
    rw [Field.complaint, atKey_object]
    rcases members.lookup f.name with _ | v
    · simp [bind, Except.bind]
    · change valueTo f.type v = .error x
        ↔ (if (f.type.ofJson? v).isSome then none else some f.type.mismatch) = some x
      rw [valueTo_error_iff]
      rcases (f.type.ofJson? v).isSome with _ | _
      · exact ⟨fun h => congrArg some h.2.symm, fun h => ⟨rfl, (Option.some.inj h).symm⟩⟩
      · simp
  all_goals simp [Json.atKey, Json.asObject, Field.complaint, bind, Except.bind]

/-- …and so it is for an array, … -/
theorem atKey_asArray_error_iff {name : StdString} {json : Json} {x : Exception} :
    (json.atKey name >>= Json.asArray) = .error x ↔ arrayComplaint name json = some x := by
  rcases json with _ | _ | _ | _ | _ | _ | _ | members
  case object =>
    rw [arrayComplaint, atKey_object]
    rcases members.lookup name with _ | _ | _ | _ | _ | _ | _ | _ | _
    all_goals simp [Json.asArray, bind, Except.bind]
  all_goals simp [Json.atKey, Json.asObject, arrayComplaint, bind, Except.bind]

/-- …which is got when there is one. -/
theorem atKey_asArray_ok_iff {name : StdString} {json : Json} {els : List Json} :
    (json.atKey name >>= Json.asArray) = .ok els ↔ json.member? name = some (.array els) := by
  rcases json with _ | _ | _ | _ | _ | _ | _ | members
  case object =>
    rw [Json.member?, atKey_object]
    rcases members.lookup name with _ | _ | _ | _ | _ | _ | _ | _ | _
    all_goals simp [Json.asArray, bind, Except.bind]
  all_goals simp [Json.atKey, Json.asObject, Json.member?, bind, Except.bind]

/-! ## The loop over the rows

Rows are read one after the other, so only the first incomplete one is ever thrown about.  Within it
any field can come first that cannot be read, and it is the one that is thrown about. -/

/-- A field throws the complaint about it. -/
theorem readField_error_iff {el : Json} {i : Fin Fs.length} {x : Exception} :
    readField el i = .error x ↔ (Fs.get i).complaint el = some x := atKey_valueTo_error_iff

/-- The exceptions a row gives cause for. -/
theorem exists_decodeRow_error_iff {el : Json} {x : Exception} :
    (∃ σ : Order Fs.length, decodeRow σ el = .error x)
      ↔ ∃ i : Fin Fs.length, (Fs.get i).complaint el = some x := by
  have hrow : ∀ σ : Order Fs.length, decodeRow σ el = .error x
      ↔ (forEach σ (assign (readField el))).run (Tuple.empty Fs) = .error x := fun σ => by
    rw [decodeRow, forEachArgument]
    rcases (forEach σ (assign (readField el))).run (Tuple.empty Fs) with e | ⟨u, data⟩
    · simp [bind, Except.bind]
    · simp [bind, Except.bind, pure, Except.pure]
  simp only [hrow]
  exact exists_forEach_assign_error_iff.trans (exists_congr fun i => readField_error_iff)

/-- The first row that is incomplete is the one that is thrown about. -/
theorem pushRows_error_iff (σ : ℕ → Order Fs.length) {x : Exception} (els : List Json) (k : ℕ)
    (response : ResponseBase Fs) :
    ((pushRows σ k els).runOn response).1 = .error x ↔
      ∃ before el after, els = before ++ el :: after ∧ (∀ b ∈ before, b.HoldsFields Fs) ∧
        decodeRow (σ (k + before.length)) el = .error x := by
  induction els generalizing k response with
  | nil =>
    have hok : ((pushRows σ k []).runOn response).1 = .ok ⟨⟩ := rfl
    rw [hok]
    refine iff_of_false (by simp) ?_
    rintro ⟨before, el, after, hels, -⟩
    simp at hels
  | cons el els ih =>
    rcases hfilled : (readRow Fs el).filled with _ | _
    · -- this is the first that is incomplete
      obtain ⟨e, he⟩ := decodeRow_not_filled hfilled (σ k)
      have hrun : (pushRows σ k (el :: els)).runOn response = (.error e, response) := by
        rw [pushRows, he]
        rfl
      rw [hrun]
      constructor
      · intro hx
        exact ⟨[], el, els, rfl, List.forall_mem_nil _,
          he.trans (congrArg _ (Except.error.inj hx))⟩
      · rintro ⟨_ | ⟨b, before⟩, el', after, hels, hbefore, hx⟩
        · obtain ⟨rfl, -⟩ := List.cons.inj hels
          exact congrArg _ (Except.error.inj (he.symm.trans hx))
        · obtain ⟨rfl, -⟩ := List.cons.inj hels
          have hholds := readRow_filled_iff.mpr (hbefore _ List.mem_cons_self)
          exact absurd (hfilled.symm.trans hholds) Bool.false_ne_true
    · -- the row is pushed, and the others are read in its place
      have hrun : (pushRows σ k (el :: els)).runOn response
          = (pushRows σ (k + 1) els).runOn
              { response with data := response.data ++ [readRow Fs el] } := by
        rw [pushRows, decodeRow_filled hfilled]
        rfl
      rw [hrun, ih]
      constructor
      · rintro ⟨before, el', after, rfl, hbefore, hx⟩
        refine ⟨el :: before, el', after, rfl,
          List.forall_mem_cons.mpr ⟨readRow_filled_iff.mp hfilled, hbefore⟩, ?_⟩
        rwa [List.length_cons, Nat.add_comm before.length, ← Nat.add_assoc]
      · rintro ⟨_ | ⟨b, before⟩, el', after, hels, hbefore, hx⟩
        · obtain ⟨rfl, -⟩ := List.cons.inj hels
          cases (decodeRow_filled hfilled (σ k)).symm.trans hx
        · obtain ⟨rfl, rfl⟩ := List.cons.inj hels
          refine ⟨before, el', after, rfl, fun b hb => hbefore b (.tail _ hb), ?_⟩
          rwa [List.length_cons, Nat.add_comm before.length, ← Nat.add_assoc] at hx

/-! ## The document -/

/-- Where an exception comes from. -/
theorem fromJson_error_iff (σ : ℕ → Order Fs.length) (json : Json) (response : ResponseBase Fs)
    (x : Exception) :
    ((fromJson σ json).runOn response).1 = .error x ↔
      (json.atKey "status".toList >>= Json.asString) = .error x ∨
      (json.atKey "status".toList >>= Json.asString) = .ok "ok".toList ∧
        ((json.atKey "data".toList >>= Json.asArray) = .error x ∨
          ∃ els, (json.atKey "data".toList >>= Json.asArray) = .ok els ∧
            ((pushRows σ 0 els).runOn { response with status := "ok".toList }).1 = .error x) := by
  rw [runOn_fromJson]
  generalize json.atKey "status".toList >>= Json.asString = status
  generalize json.atKey "data".toList >>= Json.asArray = data
  generalize "ok".toList = ok
  rcases status with e | s
  · simp
  by_cases hok : s = ok
  · subst hok
    simp only [ne_eq, not_true_eq_false, if_false]
    rcases data with e | els
    · simp
    · simp only [reduceCtorEq, false_or, true_and, Except.ok.injEq, exists_eq_left']
      rcases (pushRows σ 0 els).runOn { response with status := s } with ⟨e | u, response'⟩
      · simp
      · simp
  · simp [hok]

/-- The status that is read is the one there is. -/
theorem statusOf_ok_iff {json : Json} {s : StdString} :
    (json.atKey "status".toList >>= Json.asString) = .ok s ↔ statusOf json = some s := by
  rw [← toOption_status]
  exact ⟨fun h => by rw [h]; rfl, eq_ok_of_toOption⟩

/-- **Which exceptions leave `from_json`**: whatever was in the response, each of those the document
gives cause for, in some order of visits, and no others in any. -/
theorem fromJson_throws_which (json : Json) (response : ResponseBase Fs) (x : Exception) :
    (∃ σ : ℕ → Order Fs.length, ((fromJson σ json).runOn response).1 = .error x)
      ↔ json.Blames Fs x := by
  have hstatus : (json.atKey "status".toList >>= Json.asString) = .error x
      ↔ statusField.complaint json = some x := @atKey_valueTo_error_iff statusField json x
  simp only [fromJson_error_iff, hstatus, statusOf_ok_iff, atKey_asArray_error_iff,
    atKey_asArray_ok_iff, pushRows_error_iff, Nat.zero_add]
  constructor
  · rintro ⟨σ, h | ⟨hok, h | ⟨els, hdata, before, el, after, rfl, hbefore, hx⟩⟩⟩
    · exact .status h
    · exact .data hok h
    · obtain ⟨i, hi⟩ := exists_decodeRow_error_iff.mp ⟨_, hx⟩
      exact .row hok hdata hbefore i hi
  · rintro (h | ⟨hok, h⟩ | ⟨hok, hdata, hbefore, i, hi⟩)
    · exact ⟨fun _ => 1, .inl h⟩
    · exact ⟨fun _ => 1, .inr ⟨hok, .inl h⟩⟩
    · obtain ⟨σ, hx⟩ := exists_decodeRow_error_iff.mpr ⟨i, hi⟩
      exact ⟨fun _ => σ, .inr ⟨hok, .inr ⟨_, hdata, _, _, _, rfl, hbefore, hx⟩⟩⟩

/-! ## What is not looked at

The program asks documents for names, and never goes through their members.  So it cannot tell two
documents apart that give the same answers. -/

/-- Two values answer alike under the names. -/
def Json.AgreeOn (names : List StdString) (json json' : Json) : Prop :=
  ∀ name ∈ names, json.atKey name = json'.atKey name

/-- **Two documents say the same** to a decoder of the fields: the same status, and rows that agree
on the fields' names, if not the same data altogether. -/
structure Json.SaysTheSame (Fs : List Field) (json json' : Json) : Prop where
  status : json.atKey "status".toList = json'.atKey "status".toList
  data : json.atKey "data".toList = json'.atKey "data".toList ∨
    ∃ els els', json.member? "data".toList = some (.array els) ∧
      json'.member? "data".toList = some (.array els') ∧
      List.Forall₂ (Json.AgreeOn (Fs.map Field.name)) els els'

/-- **Members may come in another order, and with others of other names.** -/
theorem Json.agreeOn_of_perm {names : List StdString} {members members' others}
    (hperm : members'.Perm (members ++ others)) (hnodup : (members'.map Prod.fst).Nodup)
    (hothers : ∀ other ∈ others, other.1 ∉ names) :
    Json.AgreeOn names (.object members) (.object members') := by
  intro name hname
  have hkeys : (members.map Prod.fst).Nodup := by
    have hall := (hperm.map Prod.fst).nodup_iff.mp hnodup
    rw [List.map_append] at hall
    exact hall.of_append_left
  have hlookup : members.lookup name = members'.lookup name := by
    refine Option.ext fun v => ?_
    rw [lookup_eq_some_iff_mem hkeys, lookup_eq_some_iff_mem hnodup, hperm.mem_iff,
      List.mem_append]
    exact ⟨.inl, fun h => h.resolve_right fun hmem => hothers _ hmem hname⟩
  rw [atKey_object, atKey_object, hlookup]

/-- Elements that agree on the fields' names make the same row, … -/
theorem decodeRow_congr {el el' : Json} (h : Json.AgreeOn (Fs.map Field.name) el el')
    (σ : Order Fs.length) : decodeRow σ el = decodeRow σ el' := by
  have hread : (readField el : (i : Fin Fs.length) → _) = readField el' := by
    funext i
    rw [readField, readField, h _ (List.mem_map_of_mem (List.get_mem Fs i))]
  rw [decodeRow, decodeRow, hread]

/-- …and arrays of such elements the same rows. -/
theorem pushRows_congr (σ : ℕ → Order Fs.length) {els els' : List Json}
    (h : List.Forall₂ (Json.AgreeOn (Fs.map Field.name)) els els') :
    ∀ k, pushRows σ k els = pushRows σ k els' := by
  induction h with
  | nil => exact fun _ => rfl
  | cons hel _ ih =>
    intro k
    rw [pushRows, pushRows, decodeRow_congr hel, ih (k + 1)]

/-- Documents that say the same are decoded alike. -/
theorem runOn_fromJson_congr {json json' : Json} (h : json.SaysTheSame Fs json')
    (σ : ℕ → Order Fs.length) (response : ResponseBase Fs) :
    (fromJson σ json).runOn response = (fromJson σ json').runOn response := by
  rw [runOn_fromJson, runOn_fromJson, h.status]
  rcases h.data with hdata | ⟨els, els', hels, hels', hagree⟩
  · rw [hdata]
  · rw [atKey_asArray_ok_iff.mpr hels, atKey_asArray_ok_iff.mpr hels']
    simp only [pushRows_congr σ hagree 0]

/-- **The members come in another order**, and among others whose names are not in `names`. -/
structure Rearranged (names : List StdString) (members members' : List (StdString × Json)) :
    Prop where
  perm : ∃ others, members'.Perm (members ++ others) ∧ ∀ other ∈ others, other.1 ∉ names
  nodup : (members'.map Prod.fst).Nodup

/-- The members, with the rows `els` for those of `data`. -/
def replaceData (els : List Json) (members : List (StdString × Json)) : List (StdString × Json) :=
  members.map fun m => if m.1 = "data".toList then (m.1, .array els) else m

/-- **A document is told in another way**: its members are rearranged, or those of a row. -/
inductive Json.Retold (Fs : List Field) : Json → Json → Prop
  | document {members members' : List (StdString × Json)}
      (h : Rearranged ["status".toList, "data".toList] members members') :
      Retold Fs (.object members) (.object members')
  | row {members row row' : List (StdString × Json)} {before after : List Json}
      (hdata : members.lookup "data".toList = some (.array (before ++ .object row :: after)))
      (h : Rearranged (Fs.map Field.name) row row') :
      Retold Fs (.object members)
        (.object (replaceData (before ++ .object row' :: after) members))

/-- Rearranged members answer alike. -/
theorem Rearranged.agreeOn {names : List StdString} {members members' : List (StdString × Json)}
    (h : Rearranged names members members') :
    Json.AgreeOn names (.object members) (.object members') := by
  obtain ⟨⟨others, hperm, hothers⟩, hnodup⟩ := h
  exact Json.agreeOn_of_perm hperm hnodup hothers

/-- Only `data` is looked up differently then. -/
theorem lookup_replaceData (els : List Json) (members : List (StdString × Json))
    (name : StdString) :
    (replaceData els members).lookup name
      = if name = "data".toList then (members.lookup name).map fun _ => .array els
        else members.lookup name := by
  induction members with
  | nil => simp [replaceData]
  | cons m members ih =>
    obtain ⟨key, v⟩ := m
    have hcons : replaceData els ((key, v) :: members)
        = (key, if key = "data".toList then .array els else v) :: replaceData els members := by
      by_cases hkey : key = "data".toList
      · rw [if_pos hkey, replaceData, List.map_cons, if_pos hkey]
        rfl
      · rw [if_neg hkey, replaceData, List.map_cons, if_neg hkey]
        rfl
    rw [hcons, List.lookup_cons, List.lookup_cons, ih]
    by_cases hname : name = key
    · subst hname
      by_cases hdata : name = "data".toList
      · simp only [beq_self_eq_true, if_pos hdata, Option.map_some]
      · simp only [beq_self_eq_true, if_neg hdata]
    · simp only [beq_false_of_ne hname]

/-- However it is told, a document says the same. -/
theorem Json.Retold.saysTheSame {json json' : Json} (h : Json.Retold Fs json json') :
    json.SaysTheSame Fs json' := by
  rcases h with h | ⟨hdata, h⟩
  · have hagree := h.agreeOn
    exact ⟨hagree _ (by simp), .inl (hagree _ (by simp))⟩
  · refine ⟨?_, .inr ⟨_, _, hdata, ?_, List.rel_append (List.forall₂_same.mpr fun _ _ _ _ => rfl)
      (.cons h.agreeOn (List.forall₂_same.mpr fun _ _ _ _ => rfl))⟩⟩
    · rw [atKey_object, atKey_object, lookup_replaceData, if_neg (by decide)]
    · rw [Json.member?, lookup_replaceData, if_pos rfl, hdata]
      rfl

/-- **How a document is told makes no difference**: however its members and those of its rows are
rearranged, it is decoded to the same response, or thrown about alike, in every order of visits. -/
theorem fromJson_retold {json json' : Json} (h : Relation.ReflTransGen (Json.Retold Fs) json json')
    (σ : ℕ → Order Fs.length) (response : ResponseBase Fs) :
    (fromJson σ json).runOn response = (fromJson σ json').runOn response := by
  induction h with
  | refl => rfl
  | tail _ hstep ih => exact ih.trans (runOn_fromJson_congr hstep.saysTheSame σ response)

/-- The members of an element that holds every field of a stock. -/
def completeMembers : List (StdString × Json) :=
  responseFields.map fun f => (f.name, .string "X".toList)

/-- …and the other way round, after a member nobody asks for. -/
def shuffledMembers : List (StdString × Json) := ("plan".toList, .null) :: completeMembers.reverse

/-- A listing with the element. -/
def listingOf (members : List (StdString × Json)) : Json :=
  .object [("status".toList, .string "ok".toList), ("data".toList, .array [.object members])]

/-- …with the status at its end. -/
def listingBack (members : List (StdString × Json)) : Json :=
  .object [("data".toList, .array [.object members]), ("status".toList, .string "ok".toList)]

theorem fromJson_retold_shuffled :
    (fromJson (fun _ => 1) (listingOf completeMembers)).runOn ({} : GetStocksListResponse)
      = (fromJson (fun _ => 1) (listingBack shuffledMembers)).runOn {} := by
  have hrow : Rearranged (responseFields.map Field.name) completeMembers shuffledMembers :=
    ⟨⟨[("plan".toList, .null)],
      ((List.reverse_perm completeMembers).cons _).trans (List.perm_append_singleton _ _).symm,
      by decide⟩, by decide⟩
  have hfirst : Json.Retold responseFields (listingOf completeMembers)
      (listingOf shuffledMembers) := @Json.Retold.row _ _ _ _ [] [] rfl hrow
  have hthen : Json.Retold responseFields (listingOf shuffledMembers)
      (listingBack shuffledMembers) :=
    .document ⟨⟨[], .swap _ _ _, List.forall_mem_nil _⟩, by decide⟩
  exact fromJson_retold (.tail (.single hfirst) hthen) (fun _ => 1) {}

end Twelvedata
