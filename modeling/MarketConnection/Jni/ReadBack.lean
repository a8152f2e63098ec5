import MarketConnection.Foundations.SelfDelimiting
import MarketConnection.Jni.Session

/-!
# Jni/ReadBack — what the printed text tells

The `operator<<` templates write nothing around a value but the name before it and a line end after
it, and in no particular order.  That is enough, as long as no status and no value holds a line end
itself: a row has a line for each of its fields, the fields have different names, and the number of
rows is printed before them.  So a listing tells the response, and where it ends
(`tells_listingWritten`), whatever orders the compiler chose.

**What a JVM process printed tells the whole history of its calls** (`stdout_tells`): how many there
were, which of them got a listing for the blocking request and which for the asynchronous one, and
these listings.
-/

namespace Twelvedata

open Unsequenced EventLoop Refinement SelfDelimiting

variable {Fs : List Field}

/-! ## Rows -/

/-- No value of the row holds a line end. -/
def Tuple.OneLine (row : Tuple Fs) : Prop :=
  ∀ i v, row i = some v → '\n' ∉ (Fs.get i).type.printed v

/-- The line of a field, without its end. -/
def Field.line (f : Field) (value : Option f.type.Value) : StdString :=
  value.elim [] fun v => f.name ++ ": ".toList ++ f.type.printed v

/-- The lines of a row, as its fields are visited. -/
def Tuple.strings (σ : Order Fs.length) (row : Tuple Fs) : List StdString :=
  (visits σ).map fun i => (Fs.get i).line (row i)

/-- The fields can be told apart by what is printed of them. -/
structure Legible (Fs : List Field) : Prop where
  distinct : ∀ i j : Fin Fs.length, (Fs.get i).name = (Fs.get j).name → i = j
  colon : ∀ i : Fin Fs.length, ':' ∉ (Fs.get i).name
  lineEnd : ∀ i : Fin Fs.length, '\n' ∉ (Fs.get i).name

theorem legible_responseFields : Legible responseFields where
  distinct := by decide
  colon := by decide
  lineEnd := by decide

theorem FieldType.printed_inj {t : FieldType} {v v' : t.Value}
    (h : t.printed v = t.printed v') : v = v' := by
  rcases t with _ | _
  · exact h
  · rcases v with _ | _ <;> rcases v' with _ | _
    all_goals first | rfl | exact absurd h (by decide)

/-- **The lines of a row tell it**, in any two orders. -/
theorem Tuple.eq_of_strings (hFs : Legible Fs) {row row' : Tuple Fs} (h : row.filled = true)
    (h' : row'.filled = true) {σ σ' : Order Fs.length} (heq : row.strings σ = row'.strings σ') :
    row = row' := by
  funext i
  obtain ⟨v, hv⟩ := Option.isSome_iff_exists.mp (Tuple.filled_iff.mp h i)
  have hmem : (Fs.get i).line (row i) ∈ row'.strings σ' :=
    heq ▸ List.mem_map.mpr ⟨i, mem_visits σ i, rfl⟩
  obtain ⟨j, -, hj⟩ := List.mem_map.mp hmem
  obtain ⟨v', hv'⟩ := Option.isSome_iff_exists.mp (Tuple.filled_iff.mp h' j)
  rw [hv, hv', Field.line, Field.line, Option.elim_some, Option.elim_some, List.append_assoc,
    List.append_assoc] at hj
  -- up to the colon stands the name, after it the value
  obtain ⟨hname, hvalue⟩ := append_mark_inj (hFs.colon j) (hFs.colon i) hj
  obtain rfl := hFs.distinct j i hname
  obtain rfl := FieldType.printed_inj (List.cons.inj hvalue).2
  rw [hv, hv']

/-- What may be written for a row, and the blank after it. -/
def RowWritten : Tuple Fs → StdString → Prop :=
  Framed [] " ".toList (Via
    (fun row strings => row.filled = true ∧ ∃ σ : Order Fs.length, strings = row.strings σ)
    fun strings w => strings.length = Fs.length ∧ Each (Ended '\n' " ".toList) strings w)

theorem tells_rowWritten (hFs : Legible Fs) {F : StdString → Prop} :
    Tells F (RowWritten : Tuple Fs → StdString → Prop) := by
  refine Tells.framed (F := fun _ => True) [] " ".toList (Tells.via ?_ ?_) fun _ _ => trivial
  · exact Tells.each_of_length (P := fun n => n = Fs.length) (tells_ended '\n' " ".toList)
      fun m n hm hn => hm.trans hn.symm
  · rintro row row' _ ⟨h, σ, rfl⟩ ⟨h', σ', heq⟩
    exact Tuple.eq_of_strings hFs h h' heq

theorem rowWritten_entries (hFs : Legible Fs) {row : Tuple Fs} (h : row.filled = true)
    (hline : row.OneLine) (σ : Order Fs.length) : RowWritten row (row.entries σ ++ " ".toList) := by
  refine ⟨row.entries σ, ⟨row.strings σ, ⟨h, σ, rfl⟩, ?_, each_flatMap fun i _ => ?_⟩, rfl⟩
  · rw [Tuple.strings, List.length_map, (visits_perm σ).length_eq, List.length_finRange]
  · obtain ⟨v, hv⟩ := Option.isSome_iff_exists.mp (Tuple.filled_iff.mp h i)
    rw [hv]
    refine ⟨?_, by simp [Field.entry, Field.line]⟩
    rw [Field.line, Option.elim_some, List.append_assoc, List.mem_append, List.mem_append]
    rintro (hname | hcolon | hvalue)
    · exact hFs.lineEnd i hname
    · exact absurd hcolon (by decide)
    · exact hline i v hv hvalue

/-- A table is its rows, one after the other. -/
theorem each_tableText (hFs : Legible Fs) (σ : ℕ → Order Fs.length) :
    ∀ (rows : List (Tuple Fs)) (k : ℕ), (∀ row ∈ rows, row.filled = true) →
      (∀ row ∈ rows, row.OneLine) → Each RowWritten rows (tableText σ k rows)
  | [], _, _, _ => rfl
  | row :: rows, k, h, hline =>
      ⟨_, _, rowWritten_entries hFs (h row (.head _)) (hline row (.head _)) (σ k),
        each_tableText hFs σ rows (k + 1) (fun r hr => h r (.tail _ hr))
          fun r hr => hline r (.tail _ hr), rfl⟩

/-! ## Listings -/

/-- Neither the status nor a value of the response holds a line end. -/
structure ResponseBase.OneLine (response : ResponseBase Fs) : Prop where
  status : '\n' ∉ response.status
  rows : ∀ row ∈ response.data, row.OneLine

/-- The first line of a listing, after its label and without its end. -/
def heading (status : StdString) (n : ℕ) : StdString :=
  status ++ " : ".toList ++ (toString n).toList

theorem isDigit_of_mem_toString {n : ℕ} {c : Char} (h : c ∈ (toString n).toList) :
    c.isDigit = true := Nat.isDigit_of_mem_toDigits (by decide) (by decide)
      (Nat.toList_repr (n := n) ▸ h)

/-- A heading tells the number, and the status. -/
theorem heading_inj {status status' : StdString} {m n : ℕ}
    (h : heading status m = heading status' n) : status = status' ∧ m = n := by
  have hblank : ∀ k : ℕ, ' ' ∉ (toString k).toList.reverse := fun k hk =>
    absurd (isDigit_of_mem_toString (List.mem_reverse.mp hk)) (by decide)
  have hback := congrArg List.reverse h
  simp only [heading, List.reverse_append, List.append_assoc] at hback
  -- read backwards, the number ends at the first blank
  obtain ⟨hnumber, hrest⟩ := append_mark_inj (hblank m) (hblank n) hback
  have hmn : m = n := Nat.repr_inj.mp (String.toList_inj.mp (List.reverse_inj.mp hnumber))
  exact ⟨List.reverse_inj.mp (List.append_cancel_left hrest), hmn⟩

/-- What may be written for a response, after a label. -/
def ListingWritten (label : StdString) : GetStocksListResponse → StdString → Prop :=
  Framed label "\n".toList (Via
    (fun response q => q = (heading response.status response.data.length, response.data))
    (Both (Ended '\n' []) fun head rows w =>
      (∃ status, head = heading status rows.length) ∧ Each RowWritten rows w))

/-- **A listing tells the response, and where it ends.** -/
theorem tells_listingWritten (label : StdString) {F : StdString → Prop} :
    Tells F (ListingWritten label) := by
  refine Tells.framed (F := fun _ => True) label "\n".toList (Tells.via ?_ ?_) fun _ _ => trivial
  · refine Tells.both (F := fun _ => True) (tells_ended '\n' []) (fun head => ?_)
      fun _ _ _ _ _ _ => trivial
    refine Tells.each_of_length (P := fun n => ∃ status, head = heading status n)
      (tells_rowWritten legible_responseFields) ?_
    rintro m n ⟨status, hm⟩ ⟨status', hn⟩
    exact (heading_inj (hm.symm.trans hn)).2
  · rintro ⟨rows, status⟩ ⟨rows', status'⟩ _ rfl hq
    obtain ⟨hhead, rfl⟩ := Prod.mk.inj hq
    obtain rfl : status = status' := (heading_inj hhead).1
    rfl

theorem listingWritten_listingText (label : StdString) (print : PrintOrder)
    {response : GetStocksListResponse} (h : ∀ row ∈ response.data, row.filled = true)
    (hline : response.OneLine) :
    ListingWritten label response (listingText label print response) := by
  refine ⟨heading response.status response.data.length ++ "\n".toList
    ++ tableText print 0 response.data, ⟨_, rfl, _, _, ⟨?_, rfl⟩, ⟨⟨_, rfl⟩,
      each_tableText legible_responseFields print response.data 0 h hline.rows⟩, rfl⟩, ?_⟩
  · rw [heading, List.append_assoc, List.mem_append, List.mem_append]
    rintro (hstatus | hcolon | hnumber)
    · exact hline.status hstatus
    · exact absurd hcolon (by decide)
    · exact absurd (isDigit_of_mem_toString hnumber) (by decide)
  · simp only [listingText, heading, List.append_assoc]

/-! ## Calls -/

/-- What is told of a call: nothing, or the response to the blocking request and, if it got that
far, the one to the asynchronous request. -/
abbrev Told := Option (GetStocksListResponse × Option GetStocksListResponse)

/-- What may be written for a call. -/
def CallWritten : Told → StdString → Prop :=
  Framed connectBanner [] (Perhaps (Both (ListingWritten "sync: ".toList) fun _ =>
    Framed connectRule [] (Perhaps (ListingWritten "async: ".toList))))

/-- What may come after a call: nothing, or another call. -/
def CallNext (t : StdString) : Prop := ∀ c ∈ t.head?, c = 'J'

/-- A listing is not taken for the next call. -/
theorem not_callNext_of_label {label : StdString} {c : Char} (hc : label.head? = some c)
    (hne : c ≠ 'J') {response : GetStocksListResponse} {w : StdString}
    (hw : ListingWritten label response w) (t : StdString) : ¬ CallNext (w ++ t) := by
  obtain ⟨v, -, rfl⟩ := hw
  intro hnext
  refine hne (hnext c ?_)
  rw [List.append_assoc, List.append_assoc, List.head?_append, hc]
  rfl

theorem tells_callWritten : Tells CallNext CallWritten := by
  refine Tells.framed connectBanner [] (Tells.perhaps (Tells.both (F := fun _ => True)
    (tells_listingWritten _) (fun _ => Tells.framed connectRule [] (Tells.perhaps
      (tells_listingWritten _) ?_) fun _ ht => ht) fun _ _ _ _ _ _ => trivial) ?_) fun _ ht => ht
  · exact fun _ _ t hw => not_callNext_of_label (c := 'a') rfl (by decide) hw t
  · rintro ⟨response, async⟩ _ t ⟨u, v, hu, -, rfl⟩
    rw [List.append_assoc]
    exact not_callNext_of_label (c := 's') rfl (by decide) hu (v ++ t)

theorem head?_callWritten {told : Told} {w : StdString} (hw : CallWritten told w) (t : StdString) :
    (w ++ t).head? = some 'J' := by
  obtain ⟨v, -, rfl⟩ := hw
  rfl

/-! ## Histories -/

/-- The response to a request that is answered in these circumstances, if there is one. -/
def Circumstances.response (platform : Platform) (c : Circumstances) :
    Option GetStocksListResponse := (decodeBody platform c.order.row c.body).toOption

/-- What a call tells, `late` when an earlier one has stopped the context. -/
def JniCall.told (platform : Platform) (late : Bool) (call : JniCall) : Told :=
  (call.sync.response platform).map fun response =>
    (response, if late then none else call.async.response platform)

/-- What a history of calls tells. -/
def toldBy (platform : Platform) (history : List JniCall) : List Told :=
  history.zipIdx.map fun q => q.1.told platform ((history.take q.2).any (JniCall.lists platform))

/-- No response that is told of holds a line end. -/
def Told.OneLine (told : Told) : Prop :=
  ∀ q ∈ told, q.1.OneLine ∧ ∀ response ∈ q.2, response.OneLine

theorem Circumstances.listing_eq (platform : Platform) (label : StdString) (c : Circumstances) :
    (c.listing platform label).toOption
      = (c.response platform).map (listingText label c.print) := by
  rw [listing, response]
  rcases decodeBody platform c.order.row c.body with x | response <;> rfl

/-- What is printed of a response is what may be written for it. -/
theorem Circumstances.listingWritten {platform : Platform} {c : Circumstances}
    {response : GetStocksListResponse} (label : StdString)
    (h : c.response platform = some response) (hline : response.OneLine) :
    ListingWritten label response (listingText label c.print response) :=
  listingWritten_listingText label c.print (decodeBody_filled (Lists.eq_ok_of_toOption h)) hline

/-- **A call prints what may be written for what it tells.** -/
theorem JniCall.callWritten {platform : Platform} {call : JniCall} {late : Bool}
    (hline : (call.told platform late).OneLine) :
    CallWritten (call.told platform late) (call.text platform late) := by
  have hsync := call.sync.listing_eq platform "sync: ".toList
  have hasync := call.async.listing_eq platform "async: ".toList
  rw [told] at hline
  rw [text, told]
  rcases hlisting : call.sync.listing platform "sync: ".toList with x | text
  · rw [hlisting] at hsync
    rw [Option.map_eq_none_iff.mp hsync.symm]
    exact ⟨[], rfl, (List.append_nil _).symm⟩
  · rw [hlisting] at hsync
    obtain ⟨response, hresponse, rfl⟩ := Option.map_eq_some_iff.mp hsync.symm
    rw [hresponse] at hline
    obtain ⟨hsyncLine, hasyncLine⟩ := hline _ rfl
    have hfirst := call.sync.listingWritten "sync: ".toList hresponse hsyncLine
    rw [hresponse, hasync]
    rcases late with _ | _
    · rcases hlater : call.async.response platform with _ | response'
      · exact ⟨_, ⟨_, _, hfirst, ⟨_, rfl, rfl⟩, rfl⟩, by simp⟩
      · have hsecond := call.async.listingWritten "async: ".toList hlater (hasyncLine _ hlater)
        exact ⟨_, ⟨_, _, hfirst, ⟨_, hsecond, rfl⟩, rfl⟩, by simp⟩
    · exact ⟨_, ⟨_, _, hfirst, ⟨_, rfl, rfl⟩, rfl⟩, by simp⟩

/-- A history prints what may be written for what it tells, call by call. -/
theorem written_of_run {platform : Platform} {history : List JniCall} {p : JniProcess}
    (h : (jvm platform).Run history p) (hline : ∀ told ∈ toldBy platform history, told.OneLine) :
    Each CallWritten (toldBy platform history) p.state.stdout := by
  have hsession := (run_sessions_iff.mp ((jvm_exact platform).toRefines.run h).2).2
  have hstdout : p.state.stdout = (sessionAfter platform history).stdout :=
    congrArg Session.stdout hsession
  rw [hstdout]
  exact each_flatMap fun q hq => JniCall.callWritten (hline _ (List.mem_map_of_mem hq))

/-- **What is printed tells the history**: two histories of calls, on whatever platforms and with
whatever orders of visits, tell the same when they have printed the same — provided that no status
and no value they printed holds a line end. -/
theorem stdout_tells {platform platform' : Platform} {history history' : List JniCall}
    {p p' : JniProcess} (h : (jvm platform).Run history p) (h' : (jvm platform').Run history' p')
    (hline : ∀ told ∈ toldBy platform history, told.OneLine)
    (hline' : ∀ told ∈ toldBy platform' history', told.OneLine)
    (hout : p.state.stdout = p'.state.stdout) :
    toldBy platform history = toldBy platform' history' := by
  have hnil : CallNext [] := fun _ hc => by cases hc
  have hfollow : ∀ told w t, CallWritten told w → CallNext (w ++ t) := fun told w t hw c hc => by
    rw [head?_callWritten hw t] at hc
    exact (Option.some.inj hc).symm
  have hne : ∀ told, ¬ CallWritten told [] := fun told hw => by
    have hhead := head?_callWritten hw []
    cases hhead
  exact tells_callWritten.each hnil hfollow hne (written_of_run h hline)
    (hout ▸ written_of_run h' hline')

/-- A call whose requests are both answered with the listing of one stock, its fields read and
printed in these orders. -/
def answeredCall (order : VisitOrder) (print : PrintOrder) : JniCall where
  sync := { Circumstances.answered stockListing with order := order, print := print }
  async := { Circumstances.answered stockListing with order := order, print := print }
  res := .ok ()

/-- Two such calls: the second one's asynchronous request waits in vain. -/
def answeredTwice (order : VisitOrder) (print : PrintOrder) : List JniCall :=
  [answeredCall order print, answeredCall order print]

theorem oneLine_stockResponse : stockResponse.OneLine where
  status := by decide
  rows := by
    refine List.forall_mem_singleton.mpr fun i v hv => ?_
    have hfields : ∀ i, ((readRow responseFields completeElement i).all fun v =>
        decide ('\n' ∉ (responseFields.get i).type.printed v)) = true := by decide
    have hfield := hfields i
    rw [hv] at hfield
    exact of_decide_eq_true hfield

theorem listing_stockListing (order : VisitOrder) (print : PrintOrder) (label : StdString) :
    Circumstances.listing Platform.sample label
        { Circumstances.answered stockListing with order := order, print := print }
      = .ok (listingText label print stockResponse) :=
  congrArg (Except.map _) (decodeBody_stockListing order.row)

theorem response_stockListing (order : VisitOrder) (print : PrintOrder) :
    Circumstances.response Platform.sample
        { Circumstances.answered stockListing with order := order, print := print }
      = some stockResponse :=
  congrArg Except.toOption (decodeBody_stockListing order.row)

theorem lists_answeredCall (order : VisitOrder) (print : PrintOrder) :
    (answeredCall order print).lists Platform.sample = true :=
  congrArg Except.isOk (listing_stockListing order print _)

theorem toldBy_answeredTwice (order : VisitOrder) (print : PrintOrder) :
    toldBy Platform.sample (answeredTwice order print)
      = [some (stockResponse, some stockResponse), some (stockResponse, none)] := by
  have htold : ∀ late, (answeredCall order print).told Platform.sample late
      = some (stockResponse, if late then none else some stockResponse) := fun late => by
    rw [JniCall.told, answeredCall, response_stockListing, Option.map_some]
  have hlists := lists_answeredCall order print
  simp [toldBy, answeredTwice, htold, hlists]

/-- The process after them: the second call's text has no asynchronous listing. -/
theorem exists_run_answeredTwice (order : VisitOrder) (print : PrintOrder) :
    ∃ p, (jvm Platform.sample).Run (answeredTwice order print) p ∧ p.state.stdout
      = connectBanner ++ listingText "sync: ".toList print stockResponse ++ connectRule
          ++ listingText "async: ".toList print stockResponse
        ++ (connectBanner ++ listingText "sync: ".toList print stockResponse ++ connectRule) := by
  have hlists := lists_answeredCall order print
  have hsync := listing_stockListing order print "sync: ".toList
  have hasync := listing_stockListing order print "async: ".toList
  have houtcome : ∀ late, (answeredCall order print).outcome Platform.sample late = .ok () :=
    fun late => by
      rw [JniCall.outcome, answeredCall, hsync, hasync]
      exact ite_self _
  have htext : ∀ late, (answeredCall order print).text Platform.sample late
      = connectBanner ++ listingText "sync: ".toList print stockResponse ++ connectRule
        ++ if late then [] else listingText "async: ".toList print stockResponse := fun late => by
    rw [JniCall.text, answeredCall, hsync, hasync]
    rfl
  have hanswered : Answered Platform.sample (answeredTwice order print) := fun i call hi => by
    have hcall := List.mem_of_getElem? hi
    simp only [answeredTwice, List.mem_cons, List.not_mem_nil, or_false, or_self] at hcall
    rw [hcall, houtcome]
    rfl
  obtain ⟨p, hrun, hp⟩ :=
    (jvm_exact Platform.sample).run (run_sessions_iff.mpr ⟨hanswered, rfl⟩)
  refine ⟨p, hrun, (congrArg Session.stdout hp).trans ?_⟩
  simp [sessionAfter, answeredTwice, htext, hlists]

/-- The fields were read in different orders, and printed in orders that differ from the second row
on: the text is the same, and so is what it tells. -/
theorem stdout_tells_answeredTwice :
    toldBy Platform.sample (answeredTwice ⟨1, fun _ => 1⟩ fun _ => swapFirst)
      = toldBy Platform.sample
          (answeredTwice nameFirst fun k => if k = 0 then swapFirst else 1) ∧
    toldBy Platform.sample (answeredTwice ⟨1, fun _ => 1⟩ fun _ => swapFirst)
      = [some (stockResponse, some stockResponse), some (stockResponse, none)] := by
  obtain ⟨p, hrun, hp⟩ := exists_run_answeredTwice ⟨1, fun _ => 1⟩ fun _ => swapFirst
  obtain ⟨p', hrun', hp'⟩ := exists_run_answeredTwice nameFirst
    fun k => if k = 0 then swapFirst else 1
  have hline : ∀ order print, ∀ told ∈ toldBy Platform.sample (answeredTwice order print),
      told.OneLine := by
    intro order print told htold
    rw [toldBy_answeredTwice] at htold
    rcases List.mem_pair.mp htold with rfl | rfl
    · exact fun q hq => Option.mem_some_iff.mp hq ▸ ⟨oneLine_stockResponse,
        fun response hresponse => Option.mem_some_iff.mp hresponse ▸ oneLine_stockResponse⟩
    · exact fun q hq => Option.mem_some_iff.mp hq ▸ ⟨oneLine_stockResponse,
        fun response hresponse => by cases hresponse⟩
  have hlisting : ∀ label, listingText label (fun _ => swapFirst) stockResponse
      = listingText label (fun k => if k = 0 then swapFirst else 1) stockResponse :=
    fun label => rfl
  refine ⟨stdout_tells hrun hrun' (hline _ _) (hline _ _) ?_, toldBy_answeredTwice _ _⟩
  rw [hp, hp', hlisting, hlisting]

end Twelvedata
