import MarketConnection.Rest.Types
import MarketConnection.Foundations.UrlQuery

/-!
# Rest/Target — what a server reads out of the target string

`fieldsToTargetString` writes a query without escaping: the key, then `wirePairs`, the text of every
set field (`wireText`) in the order of the visits.  Its content does not depend on that order
(`target_any_order`).  A caller meant `storedPairs`: the stored strings verbatim, a `bool` as
`bool_to_cstr` names it.  A server reads back what was meant

* by percent-decoding, exactly when no text holds an `&` or a percent escape
  (`decodeQuery_target_iff`);
* over plain texts, exactly when neither `bool` field is set (`typedTarget_iff`).
-/

namespace Twelvedata

open Unsequenced UrlQuery

variable {Fs : List Field}

/-! ## The pairs on the wire, and the pairs that were meant -/

/-- The pairs of the set fields along `l`, each value written by `text`. -/
def pairsAlong (text : (t : FieldType) → t.Value → StdString) (params : Tuple Fs)
    (l : List (Fin Fs.length)) : List Pair :=
  l.filterMap fun i => (params i).map fun v => ((Fs.get i).name, text (Fs.get i).type v)

/-- A value on the wire, in so many words: a stored string verbatim, a `bool` as the one character
that has it for its code. -/
def wireText : (t : FieldType) → t.Value → StdString
  | .string, s => s
  | .bool, false => ['\x00']
  | .bool, true => ['\x01']

/-- The pairs written, in the order of the visits. -/
def wirePairs (σ : Order Fs.length) (params : Tuple Fs) : List Pair :=
  pairsAlong wireText params (visits σ)

/-- The text a value stands for. -/
def storedText : (t : FieldType) → t.Value → StdString
  | .string, s => s
  | .bool, b => boolToCstr b

/-- One pair for each set field, in the order of the tuple. -/
def storedPairs (params : Tuple Fs) : List Pair :=
  pairsAlong storedText params (List.finRange Fs.length)

/-- The pair every target starts with. -/
def keyPair (apikey : StdString) : Pair := ("apikey".toList, apikey)

theorem render_keyPair (apikey : StdString) :
    render (keyPair apikey) = "apikey".toList ++ '=' :: apikey := rfl

theorem mem_pairsAlong {text : (t : FieldType) → t.Value → StdString} {params : Tuple Fs}
    {l : List (Fin Fs.length)} {p : Pair} :
    p ∈ pairsAlong text params l ↔ ∃ i ∈ l, ∃ v, params i = some v ∧
      ((Fs.get i).name, text (Fs.get i).type v) = p := by
  simp only [pairsAlong, List.mem_filterMap, Option.map_eq_some_iff]

/-- **The pairs do not depend on the order of the visits**, up to theirs. -/
theorem wirePairs_perm (σ : Order Fs.length) (params : Tuple Fs) :
    (wirePairs σ params).Perm (pairsAlong wireText params (List.finRange Fs.length)) :=
  (visits_perm σ).filterMap _

/-- The brace initialiser makes these texts. -/
theorem braceInit_eq_wireText (t : FieldType) (v : t.Value) : braceInit t v = wireText t v := by
  rcases t with _ | _
  · rfl
  · rcases v with _ | _ <;> rfl

theorem addField_eq (f : Field) (value : Option f.type.Value) :
    addField f value
      = (value.map fun v => (f.name, wireText f.type v)).toList.flatMap ('&' :: render ·) := by
  rcases value with _ | v
  · rfl
  · simp [addField, render, braceInit_eq_wireText]

/-- What every target starts with. -/
def targetHead (verb apikey : StdString) : StdString :=
  "/".toList ++ verb ++ "?apikey=".toList ++ apikey

/-- **The target is its head and the pairs**, each behind a delimiter. -/
theorem fieldsToTargetString_eq_pairs (σ : Order Fs.length) (verb apikey : StdString)
    (params : Tuple Fs) :
    fieldsToTargetString σ verb apikey params
      = targetHead verb apikey ++ (wirePairs σ params).flatMap ('&' :: render ·) := by
  rw [fieldsToTargetString_eq, targetHead, wirePairs, pairsAlong,
    List.filterMap_eq_flatMap_toList, List.flatMap_assoc]
  exact congrArg _ (List.flatMap_congr fun i _ => addField_eq _ _)

/-- **The target is a query behind `/verb?`.** -/
theorem fieldsToTargetString_eq_query (σ : Order Fs.length) (verb apikey : StdString)
    (params : Tuple Fs) :
    fieldsToTargetString σ verb apikey params
      = ('/' :: verb) ++ '?' :: query (keyPair apikey) (wirePairs σ params) := by
  rw [fieldsToTargetString_eq_pairs, targetHead, query, render_keyPair]
  simp

theorem queryOf_target {verb : StdString} (hverb : '?' ∉ verb) (σ : Order Fs.length)
    (apikey : StdString) (params : Tuple Fs) :
    queryOf (fieldsToTargetString σ verb apikey params)
      = query (keyPair apikey) (wirePairs σ params) := by
  have h : '?' ∉ '/' :: verb := by simp [hverb]
  rw [queryOf, fieldsToTargetString_eq_query, cut_append h]

/-! ## Any two orders -/

/-- The pieces of the written pairs between `&`. -/
def pieces (ps : List Pair) : List StdString := ps.flatMap fun q => (render q).splitOn '&'

/-- **Splitting a target**: the pieces of its head, then those of the pairs. -/
theorem splitOn_target (σ : Order Fs.length) (verb apikey : StdString) (params : Tuple Fs) :
    (fieldsToTargetString σ verb apikey params).splitOn '&'
      = (targetHead verb apikey).splitOn '&' ++ pieces (wirePairs σ params) := by
  have hpairs : ((wirePairs σ params).flatMap fun q => '&' :: render q)
      = ((wirePairs σ params).map render).flatMap ('&' :: ·) := by rw [List.flatMap_map]
  rw [fieldsToTargetString_eq_pairs, hpairs, splitOn_flatMap_cons, List.flatMap_map, pieces]

/-- Every set field, once, whatever the order. -/
theorem splitOn_target_perm (σ : Order Fs.length) (verb apikey : StdString) (params : Tuple Fs) :
    ((fieldsToTargetString σ verb apikey params).splitOn '&').Perm
      ((targetHead verb apikey).splitOn '&'
        ++ pieces (pairsAlong wireText params (List.finRange Fs.length))) := by
  rw [splitOn_target]
  exact ((wirePairs_perm σ params).flatMap_right _).append_left _

/-- **The content of the query does not depend on the order of the visits**: any two targets start
with the same head, are equally long and split into the same pieces, those of the head and of the
pair of every set field: its name, `=`, and its value as `wireText` spells it. -/
theorem target_any_order (σ σ' : Order Fs.length) (verb apikey : StdString) (params : Tuple Fs) :
    (targetHead verb apikey <+: fieldsToTargetString σ verb apikey params ∧
      targetHead verb apikey <+: fieldsToTargetString σ' verb apikey params) ∧
    (fieldsToTargetString σ verb apikey params).length
      = (fieldsToTargetString σ' verb apikey params).length ∧
    ((fieldsToTargetString σ verb apikey params).splitOn '&').Perm
      ((fieldsToTargetString σ' verb apikey params).splitOn '&') ∧
    ((fieldsToTargetString σ verb apikey params).splitOn '&').Perm
      ((targetHead verb apikey).splitOn '&' ++
        pieces (pairsAlong wireText params (List.finRange Fs.length))) := by
  have hhead : ∀ ρ : Order Fs.length,
      targetHead verb apikey <+: fieldsToTargetString ρ verb apikey params := fun ρ => by
    rw [fieldsToTargetString_eq_pairs]
    exact List.prefix_append _ _
  have hchars : (fieldsToTargetString σ verb apikey params).Perm
      (fieldsToTargetString σ' verb apikey params) := by
    have hpairs := (wirePairs_perm σ params).trans (wirePairs_perm σ' params).symm
    rw [fieldsToTargetString_eq_pairs, fieldsToTargetString_eq_pairs]
    exact (hpairs.flatMap_right _).append_left _
  have hpieces := splitOn_target_perm σ verb apikey params
  exact ⟨⟨hhead σ, hhead σ'⟩, hchars.length_eq,
    hpieces.trans (splitOn_target_perm σ' verb apikey params).symm, hpieces⟩

/-- A symbol that carries a delimiter, and a flag. -/
example : (fieldsToTargetString 1 "stocks".toList "k".toList (Function.update
      (GetStocksListRequest.ofSymbol "A&B".toList) ⟨7, by decide⟩ (some true))).splitOn '&'
    = ["/stocks?apikey=k".toList, "symbol=A".toList, "B".toList, "show_plan=\x01".toList] := by
  decide

/-! ## The stocks request -/

theorem plainName_requestFields : ∀ i : Fin requestFields.length,
    '&' ∉ (requestFields.get i).name ∧ '=' ∉ (requestFields.get i).name ∧
      '%' ∉ (requestFields.get i).name := by decide

theorem plainName_apikey : PlainName "apikey".toList := ⟨by decide, by decide, by decide⟩

theorem plainName_of_mem {text : (t : FieldType) → t.Value → StdString}
    {request : GetStocksListRequest} {l : List (Fin requestFields.length)} (apikey : StdString) :
    ∀ q ∈ keyPair apikey :: pairsAlong text request l, PlainName q.1 := by
  intro q hq
  rcases List.mem_cons.mp hq with rfl | hq
  · exact plainName_apikey
  · obtain ⟨i, -, v, -, rfl⟩ := mem_pairsAlong.mp hq
    obtain ⟨hamp, heq, hpct⟩ := plainName_requestFields i
    exact ⟨hamp, heq, hpct⟩

/-- Only the two `bool` fields are written otherwise than they are meant. -/
theorem type_requestFields : ∀ i : Fin requestFields.length,
    (requestFields.get i).type = .bool → i = ⟨7, by decide⟩ ∨ i = ⟨8, by decide⟩ := by decide

theorem wireText_eq_storedText {t : FieldType} (ht : t ≠ .bool) (v : t.Value) :
    wireText t v = storedText t v := by
  rcases t with _ | _
  · rfl
  · exact absurd rfl ht

/-- **Without a `bool` field the pairs written are the pairs meant.** -/
theorem wirePairs_perm_storedPairs {request : GetStocksListRequest}
    (hplan : request.showPlan = none) (hdelisted : request.includeDelisted = none)
    (σ : Order requestFields.length) :
    (wirePairs σ request).Perm (storedPairs request) := by
  refine (wirePairs_perm σ request).trans ?_
  rw [storedPairs, pairsAlong, pairsAlong]
  refine .of_eq (List.filterMap_congr fun i _ => ?_)
  rcases hv : request i with _ | v
  · rfl
  have ht : (requestFields.get i).type ≠ .bool := fun hb => by
    rcases type_requestFields i hb with rfl | rfl
    · exact absurd (hv.symm.trans hplan) (by simp)
    · exact absurd (hv.symm.trans hdelisted) (by simp)
  rw [Option.map_some, Option.map_some, wireText_eq_storedText ht]

/-- A property of every value written is one of the key and of every stored value. -/
theorem forall_pairs_iff {P : StdString → Prop} {request : GetStocksListRequest}
    {apikey : StdString} :
    (∀ q ∈ keyPair apikey :: storedPairs request, P q.2)
      ↔ P apikey ∧ ∀ i v, request i = some v → P (storedText (requestFields.get i).type v) := by
  rw [List.forall_mem_cons]
  refine and_congr_right fun _ => ⟨fun h i v hv => ?_, fun h q hq => ?_⟩
  · exact h _ (mem_pairsAlong.mpr ⟨i, List.mem_finRange i, v, hv, rfl⟩)
  · obtain ⟨i, -, v, hv, rfl⟩ := mem_pairsAlong.mp hq
    exact h i v hv

/-! ## Percent-decoding the string fields -/

/-- **Decoding undoes the target exactly when no text in it holds an `&` or a percent escape.** -/
theorem decodeQuery_target_iff (σ : Order requestFields.length) {verb : StdString}
    (hverb : '?' ∉ verb) (apikey : StdString) {request : GetStocksListRequest}
    (hplan : request.showPlan = none) (hdelisted : request.includeDelisted = none) :
    (decodeQuery (queryOf (fieldsToTargetString σ verb apikey request))).Perm
        (keyPair apikey :: storedPairs request)
      ↔ ('&' ∉ apikey ∧ ¬ HasEscape apikey) ∧
        ∀ i v, request i = some v →
          '&' ∉ storedText (requestFields.get i).type v ∧
            ¬ HasEscape (storedText (requestFields.get i).type v) := by
  have hname : ∀ q ∈ keyPair apikey :: wirePairs σ request, PlainName q.1 :=
    plainName_of_mem apikey
  have hperm := (wirePairs_perm_storedPairs hplan hdelisted σ).cons (keyPair apikey)
  rw [queryOf_target hverb, ← hperm.congr_right, decodeQuery_query_iff hname]
  refine Iff.trans ?_ (forall_pairs_iff (P := fun s => '&' ∉ s ∧ ¬ HasEscape s))
  exact forall_congr' fun q => imp_congr_left hperm.mem_iff

/-- A ticker, as the callers in the repository pass it. -/
theorem decodeQuery_target_plain :
    (decodeQuery (queryOf (fieldsToTargetString 1 "stocks".toList "k".toList
        (GetStocksListRequest.ofSymbol "AAPL".toList)))).Perm
      (keyPair "k".toList :: storedPairs (GetStocksListRequest.ofSymbol "AAPL".toList)) := by
  refine (decodeQuery_target_iff 1 (by decide) "k".toList rfl rfl).mpr ?_
  refine (forall_pairs_iff (P := fun s => '&' ∉ s ∧ ¬ HasEscape s)).mp ?_
  have hplain : ∀ q ∈ keyPair "k".toList ::
      storedPairs (GetStocksListRequest.ofSymbol "AAPL".toList), '&' ∉ q.2 ∧ '%' ∉ q.2 := by
    decide
  exact fun q hq => ⟨(hplain q hq).1, not_hasEscape_of_notMem (hplain q hq).2⟩

/-- A symbol that carries a delimiter is read as two parameters. -/
theorem decodeQuery_target_injected :
    ¬ (decodeQuery (queryOf (fieldsToTargetString 1 "stocks".toList "k".toList
          (GetStocksListRequest.ofSymbol "A&exchange=B".toList)))).Perm
        (keyPair "k".toList ::
          storedPairs (GetStocksListRequest.ofSymbol "A&exchange=B".toList)) := by
  decide

/-! ## The `bool` fields -/

/-- The characters a URL never has to escape. -/
def Unreserved (c : Char) : Prop := c.isAlphanum = true ∨ c ∈ ['-', '.', '_', '~']

/-- The characters of a token of the HTTP request line. -/
def VisibleAscii (c : Char) : Prop := 33 ≤ c.toNat ∧ c.toNat ≤ 126

instance : DecidablePred Unreserved := fun c => by unfold Unreserved; infer_instance

instance : DecidablePred VisibleAscii := fun c => by unfold VisibleAscii; infer_instance

theorem Unreserved.visibleAscii {c : Char} (hc : Unreserved c) : VisibleAscii c := by
  rcases hc with hc | hc
  · simp only [Char.isAlphanum, Char.isAlpha, Char.isUpper, Char.isLower, Char.isDigit,
      Bool.or_eq_true, Bool.and_eq_true, decide_eq_true_eq, ge_iff_le, UInt32.le_iff_toNat_le] at hc
    simp only [VisibleAscii, Char.toNat]
    rcases hc with (⟨hl, hu⟩ | ⟨hl, hu⟩) | ⟨hl, hu⟩
    all_goals exact ⟨le_trans (by decide) hl, le_trans hu (by decide)⟩
  · simp only [List.mem_cons, List.not_mem_nil, or_false] at hc
    rcases hc with rfl | rfl | rfl | rfl
    all_goals decide

/-- A property of all characters of a text is checked along the text. -/
theorem forall_mem_of_all {P : Char → Prop} [DecidablePred P] {s : StdString}
    (h : (s.all fun c => decide (P c)) = true) : ∀ c ∈ s, P c := fun c hc =>
  of_decide_eq_true (List.all_eq_true.mp h c hc)

theorem Unreserved.ne_amp {c : Char} (hc : Unreserved c) : c ≠ '&' := by
  rintro rfl
  exact absurd hc (by decide)

theorem Unreserved.ne_question {c : Char} (hc : Unreserved c) : c ≠ '?' := by
  rintro rfl
  exact absurd hc (by decide)

theorem visibleAscii_requestFields (i : Fin requestFields.length) :
    ∀ c ∈ (requestFields.get i).name, VisibleAscii c := by
  have hall : ∀ i : Fin requestFields.length,
      ((requestFields.get i).name.all fun c => decide (VisibleAscii c)) = true := by decide
  exact forall_mem_of_all (hall i)

theorem visibleAscii_apikey : ∀ c ∈ "apikey".toList, VisibleAscii c :=
  forall_mem_of_all (by decide)

theorem mem_fieldsToTargetString {σ : Order Fs.length} {verb apikey : StdString}
    {params : Tuple Fs} {c : Char} :
    c ∈ fieldsToTargetString σ verb apikey params ↔
      c = '/' ∨ c ∈ verb ∨ c = '?' ∨ c ∈ render (keyPair apikey) ∨
        ∃ q ∈ wirePairs σ params, c = '&' ∨ c ∈ render q := by
  rw [fieldsToTargetString_eq_query, query]
  simp only [List.mem_append, List.mem_cons, List.mem_flatMap, or_assoc]

/-- The one character a `bool` is turned into is not visible. -/
theorem exists_not_visibleAscii {t : FieldType} (ht : t = .bool) (v : t.Value) :
    ∃ c ∈ wireText t v, ¬ VisibleAscii c := by
  subst ht
  rcases v with _ | _
  all_goals exact ⟨_, List.mem_singleton_self _, by decide⟩

/-- What a set `bool` field puts on the wire is not visible. -/
theorem not_visibleAscii_of_bool (σ : Order requestFields.length) (verb apikey : StdString)
    {request : GetStocksListRequest} {i : Fin requestFields.length}
    (ht : (requestFields.get i).type = .bool) (hset : (request i).isSome) :
    ∃ c ∈ fieldsToTargetString σ verb apikey request, ¬ VisibleAscii c := by
  obtain ⟨v, hv⟩ := Option.isSome_iff_exists.mp hset
  obtain ⟨c, hc, hinvisible⟩ := exists_not_visibleAscii ht v
  refine ⟨c, mem_fieldsToTargetString.mpr (.inr (.inr (.inr (.inr ⟨_, mem_pairsAlong.mpr
    ⟨i, mem_visits σ i, v, hv, rfl⟩, .inr ?_⟩)))), hinvisible⟩
  exact List.mem_append_right _ (List.mem_cons_of_mem _ hc)

theorem visibleAscii_render {q : Pair} (hname : ∀ c ∈ q.1, VisibleAscii c)
    (htext : ∀ c ∈ q.2, Unreserved c) : ∀ c ∈ render q, VisibleAscii c := by
  intro c hc
  rcases List.mem_append.mp hc with hc | hc
  · exact hname c hc
  · rcases List.mem_cons.mp hc with rfl | hc
    · decide
    · exact (htext c hc).visibleAscii

/-- Over unreserved texts every character of the target is visible. -/
theorem visibleAscii_target (σ : Order requestFields.length) {verb apikey : StdString}
    {request : GetStocksListRequest} (hverb : ∀ c ∈ verb, Unreserved c)
    (htext : ∀ q ∈ keyPair apikey :: wirePairs σ request, ∀ c ∈ q.2, Unreserved c) :
    ∀ c ∈ fieldsToTargetString σ verb apikey request, VisibleAscii c := by
  have hname : ∀ q ∈ wirePairs σ request, ∀ c ∈ q.1, VisibleAscii c := by
    intro q hq
    obtain ⟨i, -, v, -, rfl⟩ := mem_pairsAlong.mp hq
    exact visibleAscii_requestFields i
  intro c hc
  rcases mem_fieldsToTargetString.mp hc with rfl | hc | rfl | hc | ⟨q, hq, rfl | hc⟩
  · decide
  · exact (hverb c hc).visibleAscii
  · decide
  · exact visibleAscii_render visibleAscii_apikey (htext _ List.mem_cons_self) c hc
  · decide
  · exact visibleAscii_render (hname q hq) (htext q (List.mem_cons_of_mem _ hq)) c hc

/-- **Over unreserved texts the target is a visible token that splits into what was meant exactly
when neither `bool` field is set.** -/
theorem typedTarget_iff (σ : Order requestFields.length) {verb apikey : StdString}
    {request : GetStocksListRequest} (hverb : ∀ c ∈ verb, Unreserved c)
    (hkey : ∀ c ∈ apikey, Unreserved c)
    (htexts : ∀ i v, request i = some v →
      ∀ c ∈ storedText (requestFields.get i).type v, Unreserved c) :
    ((∀ c ∈ fieldsToTargetString σ verb apikey request, VisibleAscii c) ∧
        (splitQuery (queryOf (fieldsToTargetString σ verb apikey request))).Perm
          (keyPair apikey :: storedPairs request))
      ↔ request.showPlan = none ∧ request.includeDelisted = none := by
  constructor
  · rintro ⟨hvisible, -⟩
    have hunset : ∀ i, (requestFields.get i).type = .bool → request i = none := fun i ht => by
      by_contra hset
      obtain ⟨c, hc, hno⟩ := not_visibleAscii_of_bool σ verb apikey ht
        (Option.isSome_iff_ne_none.mpr hset)
      exact hno (hvisible c hc)
    exact ⟨hunset _ rfl, hunset _ rfl⟩
  · rintro ⟨hplan, hdelisted⟩
    have hperm := (wirePairs_perm_storedPairs hplan hdelisted σ).cons (keyPair apikey)
    have htext : ∀ q ∈ keyPair apikey :: wirePairs σ request, ∀ c ∈ q.2, Unreserved c := by
      have hstored := forall_pairs_iff (P := fun s => ∀ c ∈ s, Unreserved c).mpr ⟨hkey, htexts⟩
      exact fun q hq => hstored q (hperm.mem_iff.mp hq)
    refine ⟨visibleAscii_target σ hverb htext, ?_⟩
    have hplain : ∀ q ∈ keyPair apikey :: wirePairs σ request, PlainName q.1 :=
      plainName_of_mem apikey
    rw [queryOf_target fun h => (hverb _ h).ne_question rfl,
      splitQuery_query hplain fun q hq h => (htext q hq _ h).ne_amp rfl]
    exact hperm

/-- A ticker, as the callers in the repository pass it. -/
theorem typedTarget_plain :
    (∀ c ∈ fieldsToTargetString 1 "stocks".toList "k".toList
        (GetStocksListRequest.ofSymbol "AAPL".toList), VisibleAscii c) ∧
      (splitQuery (queryOf (fieldsToTargetString 1 "stocks".toList "k".toList
          (GetStocksListRequest.ofSymbol "AAPL".toList)))).Perm
        (keyPair "k".toList :: storedPairs (GetStocksListRequest.ofSymbol "AAPL".toList)) := by
  refine (typedTarget_iff 1 (forall_mem_of_all (by decide)) (forall_mem_of_all (by decide))
    ?_).mpr ⟨rfl, rfl⟩
  have hpairs : ∀ q ∈ keyPair "k".toList ::
      storedPairs (GetStocksListRequest.ofSymbol "AAPL".toList),
      (q.2.all fun c => decide (Unreserved c)) = true := by decide
  have htexts := (forall_pairs_iff
    (P := fun s => (s.all fun c => decide (Unreserved c)) = true)).mp hpairs
  exact fun i v hv => forall_mem_of_all (htexts.2 i v hv)

/-- `show_plan=true` goes out as the character of code 1. -/
theorem typedTarget_showPlan :
    ¬ ((∀ c ∈ fieldsToTargetString 1 "stocks".toList "k".toList
          (GetStocksListRequest.ofShowPlan true), VisibleAscii c) ∧
        (splitQuery (queryOf (fieldsToTargetString 1 "stocks".toList "k".toList
            (GetStocksListRequest.ofShowPlan true)))).Perm
          (keyPair "k".toList :: storedPairs (GetStocksListRequest.ofShowPlan true))) := by
  rintro ⟨hvisible, -⟩
  exact absurd (hvisible (Char.ofNat 1) (by decide)) (by decide)

end Twelvedata
