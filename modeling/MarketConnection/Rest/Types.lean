import MarketConnection.Utilities

/-!
# Rest/Types — the fields, requests and responses of the REST API

`rest_request_types.h`, and the part of Boost.JSON it reads values with.  A field is a name and a
type; a `std::tuple` of fields is the optional value each of them holds, so a `bool` field cannot
hold a string.  `fieldsToTargetString` and `fromJson` are generic in the field list, as the
templates are, and take the order in which `for_each_argument` visits the fields.
-/

namespace Twelvedata

open Unsequenced

/-! ## JSON values -/

/-- A `boost::json::value`.  The members of an object are listed as they are found: `at` takes the
first of a name. -/
inductive Json
  | null
  | bool (b : Bool)
  | int64 (n : Int64)
  | uint64 (n : UInt64)
  | double (x : Float)
  | string (s : StdString)
  | array (elements : List Json)
  | object (members : List (StdString × Json))

namespace Json

def asObject : Json → Except Exception (List (StdString × Json))
  | object members => .ok members
  | _ => .error .notObject

def asArray : Json → Except Exception (List Json)
  | array elements => .ok elements
  | _ => .error .notArray

def asString : Json → Except Exception StdString
  | string s => .ok s
  | _ => .error .notString

def asBool : Json → Except Exception Bool
  | bool b => .ok b
  | _ => .error .notBool

/-- `value::at(key)`. -/
def atKey (json : Json) (key : StdString) : Except Exception Json := do
  let members ← json.asObject
  match members.lookup key with
  | some value => .ok value
  | none => .error (.outOfRange key)

end Json

/-! ## Fields -/

/-- The types a `RequestField` is instantiated at. -/
inductive FieldType
  | string
  | bool
deriving DecidableEq

/-- The C++ type behind it. -/
abbrev FieldType.Value : FieldType → Type
  | .string => StdString
  | .bool => Bool

/-- `RequestField<T, Name>`, without the value it holds. -/
structure Field where
  name : StdString
  type : FieldType
deriving DecidableEq

namespace Fields

def symbol : Field := ⟨"symbol".toList, .string⟩
def exchange : Field := ⟨"exchange".toList, .string⟩
def micCode : Field := ⟨"mic_code".toList, .string⟩
def country : Field := ⟨"country".toList, .string⟩
def name : Field := ⟨"name".toList, .string⟩
def type : Field := ⟨"type".toList, .string⟩
def currency : Field := ⟨"currency".toList, .string⟩
def format : Field := ⟨"format".toList, .string⟩
def delimiter : Field := ⟨"delimiter".toList, .string⟩
def showPlan : Field := ⟨"show_plan".toList, .bool⟩

/-- The name on the wire is spelled this way. -/
def includeDelisted : Field := ⟨"include_deslisted".toList, .bool⟩

end Fields

/-- `std::tuple<Fields...>`: the optional value each field holds. -/
abbrev Tuple (Fs : List Field) : Type :=
  (i : Fin Fs.length) → Option (Fs.get i).type.Value

/-- A value-initialised tuple: no field is set. -/
def Tuple.empty (Fs : List Field) : Tuple Fs := fun _ => none

/-! ## Requests and responses -/

abbrev requestFields : List Field :=
  [Fields.symbol, Fields.exchange, Fields.micCode, Fields.country, Fields.type, Fields.format,
    Fields.delimiter, Fields.showPlan, Fields.includeDelisted]

abbrev GetStocksListRequest : Type := Tuple requestFields

namespace GetStocksListRequest

/-- `get<fields::ShowPlan>(request).value`. -/
def showPlan (request : GetStocksListRequest) : Option Bool := request ⟨7, by decide⟩

/-- `get<fields::IncludeDelisted>(request).value`. -/
def includeDelisted (request : GetStocksListRequest) : Option Bool := request ⟨8, by decide⟩

/-- `get<fields::Symbol>(request).value = symbol`, on a fresh request. -/
def ofSymbol (symbol : StdString) : GetStocksListRequest :=
  Function.update (Tuple.empty requestFields) ⟨0, by decide⟩ (some symbol)

/-- `get<fields::ShowPlan>(request).value = flag`, on a fresh request. -/
def ofShowPlan (flag : Bool) : GetStocksListRequest :=
  Function.update (Tuple.empty requestFields) ⟨7, by decide⟩ (some flag)

end GetStocksListRequest

/-- `ResponseBase<Fields...>`. -/
structure ResponseBase (Fs : List Field) where
  data : List (Tuple Fs) := []
  status : StdString := []

abbrev responseFields : List Field :=
  [Fields.symbol, Fields.name, Fields.currency, Fields.exchange, Fields.micCode, Fields.country,
    Fields.type]

abbrev GetStocksListResponse : Type := ResponseBase responseFields

/-! ## `fields_to_target_string` -/

variable {Fs : List Field}

/-- `std::string{value}`.  From a string it is a copy; from a `bool` the initializer list wins, and
the string is the one character of that code. -/
def braceInit : (t : FieldType) → t.Value → StdString
  | .string, s => s
  | .bool, b => [Char.ofNat b.toNat]

/-- What `add_field` appends for one field. -/
def addField (f : Field) : Option f.type.Value → StdString
  | none => []
  | some v => "&".toList ++ f.name ++ "=".toList ++ braceInit f.type v

def fieldsToTargetString (σ : Order Fs.length) (verb apikey : StdString) (params : Tuple Fs) :
    StdString :=
  let target := "/".toList ++ verb ++ "?apikey=".toList ++ apikey
  ((forEachArgument σ (append fun i => addField (Fs.get i) (params i))).run target).2

/-- **The target**: the key, then the set fields in the order they are visited. -/
theorem fieldsToTargetString_eq (σ : Order Fs.length) (verb apikey : StdString)
    (params : Tuple Fs) :
    fieldsToTargetString σ verb apikey params
      = "/".toList ++ verb ++ "?apikey=".toList ++ apikey
        ++ (visits σ).flatMap fun i => addField (Fs.get i) (params i) := by
  rw [fieldsToTargetString, forEachArgument, forEach_append]

/-! ## `from_json` -/

/-- `value_to<T>`. -/
def valueTo : (t : FieldType) → Json → Except Exception t.Value
  | .string, json => json.asString
  | .bool, json => json.asBool

/-- What `set_field` reads from a row's element for the field `i`. -/
def readField (el : Json) (i : Fin Fs.length) : Except Exception (Fs.get i).type.Value := do
  valueTo (Fs.get i).type (← el.atKey (Fs.get i).name)

/-- One turn of the loop up to the `push_back`: a fresh tuple, every field set from `el`. -/
def decodeRow (σ : Order Fs.length) (el : Json) : Except Exception (Tuple Fs) := do
  let (_, data) ← (forEachArgument σ (assign (readField el))).run (Tuple.empty Fs)
  return data

/-- The response under construction, kept when an exception leaves the call. -/
abbrev FromJson (Fs : List Field) := ExceptT Exception (StateM (ResponseBase Fs))

/-- What the call returns or throws, and the response after it. -/
abbrev FromJson.runOn {α : Type} (x : FromJson Fs α) (response : ResponseBase Fs) :
    Except Exception α × ResponseBase Fs := (ExceptT.run x).run response

/-- `for (const auto &el: …) { …; response.data.push_back(data); }`, the elements counted from `k`:
each turn may visit the fields in an order of its own. -/
def pushRows (σ : ℕ → Order Fs.length) : ℕ → List Json → FromJson Fs PUnit
  | _, [] => pure ()
  | k, el :: rest => do
    let data ← MonadExcept.ofExcept (decodeRow (σ k) el)
    modify fun response => { response with data := response.data ++ [data] }
    pushRows σ (k + 1) rest

def fromJson (σ : ℕ → Order Fs.length) (json : Json) : FromJson Fs ℤ := do
  let status ← MonadExcept.ofExcept do (← json.atKey "status".toList).asString
  modify fun response => { response with status := status }
  if status ≠ "ok".toList then
    return 1
  let elements ← MonadExcept.ofExcept do (← json.atKey "data".toList).asArray
  pushRows σ 0 elements
  return 0

/-! ## A row to run the model on -/

/-- An element that holds every field of a stock. -/
def completeElement : Json :=
  .object (responseFields.map fun f => (f.name, .string "X".toList))

end Twelvedata
