import Mathlib

/-!
# Foundations/UrlQuery — reading the query part of a URL

A query is read in three moves: split at `&`, cut each piece at its first `=`, and percent-decode
the halves.  `query` writes one the plain way, without escaping anything, and
`decodeQuery_query_iff` says exactly when it is read back as it was meant: no value contains an `&`
or a percent escape.
-/

namespace UrlQuery

/-! ## Cutting at the first delimiter -/

section Cut

variable {α : Type*} [DecidableEq α]

/-- The text before and after the first `d`; all of it and nothing, when there is none. -/
def cut (d : α) (l : List α) : List α × List α :=
  (l.takeWhile (· ≠ d), (l.dropWhile (· ≠ d)).tail)

theorem cut_append {d : α} {a : List α} (h : d ∉ a) (b : List α) :
    cut d (a ++ d :: b) = (a, b) := by
  have ha : ∀ x ∈ a, decide (x ≠ d) = true := fun x hx =>
    decide_eq_true fun hd => h (hd ▸ hx)
  rw [cut, List.takeWhile_append_of_pos ha, List.dropWhile_append_of_pos ha]
  simp

/-- **Splitting distributes over the pieces a delimiter introduces.** -/
theorem splitOn_flatMap_cons (d : α) (s : List α) :
    ∀ ps : List (List α), (s ++ ps.flatMap (d :: ·)).splitOn d
      = s.splitOn d ++ ps.flatMap (·.splitOn d)
  | [] => by simp
  | p :: ps => by
      have ih := splitOn_flatMap_cons d p ps
      rw [List.flatMap_cons, List.cons_append, List.splitOn_append_cons_self, ih,
        List.flatMap_cons]

theorem length_splitOn (d : α) : ∀ l : List α, (l.splitOn d).length = l.count d + 1
  | [] => by simp [List.splitOn_nil]
  | a :: l => by
      have ih := length_splitOn d l
      rw [List.splitOn_cons_eq_if_modifyHead]
      by_cases h : a = d
      · subst h; simp [ih]
      · simp [h, ih]

end Cut

/-! ## Percent escapes -/

/-- The value of a hexadecimal digit. -/
def hexValue (c : Char) : Option ℕ :=
  if '0' ≤ c ∧ c ≤ '9' then some (c.toNat - '0'.toNat)
  else if 'a' ≤ c ∧ c ≤ 'f' then some (c.toNat - 'a'.toNat + 10)
  else if 'A' ≤ c ∧ c ≤ 'F' then some (c.toNat - 'A'.toNat + 10)
  else none

/-- The character three characters escape, if they are an escape. -/
def escape (c h l : Char) : Option Char :=
  if c = '%' then
    match hexValue h, hexValue l with
    | some a, some b => some (Char.ofNat (16 * a + b))
    | _, _ => none
  else none

/-- Percent-decoding: every escape becomes its character, anything else stays as it is. -/
def percentDecode : List Char → List Char
  | c :: h :: l :: rest =>
    match escape c h l with
    | some d => d :: percentDecode rest
    | none => c :: percentDecode (h :: l :: rest)
  | c :: rest => c :: percentDecode rest
  | [] => []

/-- A percent escape stands somewhere in the text. -/
def HasEscape (s : List Char) : Prop :=
  ∃ c h l, (escape c h l).isSome ∧ [c, h, l] <:+: s

theorem escape_eq_none {c : Char} (hc : c ≠ '%') (h l : Char) : escape c h l = none := if_neg hc

theorem length_percentDecode_le (s : List Char) : (percentDecode s).length ≤ s.length := by
  fun_induction percentDecode s with
  | case1 c h l rest d _ ih => simp only [List.length_cons]; omega
  | case2 c h l rest _ ih => simp only [List.length_cons] at *; omega
  | case3 c rest _ ih => simpa using ih
  | case4 => simp

/-- **Decoding that keeps the length keeps the text.** -/
theorem percentDecode_eq_self_of_length (s : List Char)
    (hs : (percentDecode s).length = s.length) : percentDecode s = s := by
  fun_induction percentDecode s with
  | case1 c h l rest d _ ih =>
    have := length_percentDecode_le rest
    simp only [List.length_cons] at hs
    omega
  | case2 c h l rest _ ih => rw [ih (by simpa using hs)]
  | case3 c rest _ ih => rw [ih (by simpa using hs)]
  | case4 => rfl

theorem hasEscape_cons (c : Char) (s : List Char) :
    HasEscape (c :: s)
      ↔ (∃ h l rest, s = h :: l :: rest ∧ (escape c h l).isSome) ∨ HasEscape s := by
  constructor
  · rintro ⟨c', h, l, hesc, hin⟩
    rcases List.infix_cons_iff.mp hin with hpre | hin
    · obtain ⟨rest, hrest⟩ := hpre
      simp only [List.cons_append, List.nil_append, List.cons.injEq] at hrest
      obtain ⟨rfl, rfl⟩ := hrest
      exact .inl ⟨h, l, rest, rfl, hesc⟩
    · exact .inr ⟨c', h, l, hesc, hin⟩
  · rintro (⟨h, l, rest, rfl, hesc⟩ | ⟨c', h, l, hesc, hin⟩)
    · exact ⟨c, h, l, hesc, ⟨[], rest, rfl⟩⟩
    · exact ⟨c', h, l, hesc, hin.trans (List.suffix_cons c s).isInfix⟩

/-- **A text is left alone by decoding exactly when it holds no escape.** -/
theorem percentDecode_eq_self_iff (s : List Char) : percentDecode s = s ↔ ¬ HasEscape s := by
  fun_induction percentDecode s with
  | case1 c h l rest d hesc ih =>
    have hlen := length_percentDecode_le rest
    refine iff_of_false (fun heq => ?_) (fun hno => hno ?_)
    · have := congrArg List.length heq
      simp only [List.length_cons] at this
      omega
    · exact (hasEscape_cons c _).mpr (.inl ⟨h, l, rest, rfl, by simp [hesc]⟩)
  | case2 c h l rest hesc ih =>
    rw [List.cons.injEq, hasEscape_cons, not_or, ih]
    refine ⟨fun hr => ⟨?_, hr.2⟩, fun hr => ⟨rfl, hr.2⟩⟩
    rintro ⟨h', l', rest', hcons, hsome⟩
    obtain ⟨rfl, rfl, rfl⟩ : h = h' ∧ l = l' ∧ rest = rest' := by simpa using hcons
    simp [hesc] at hsome
  | case3 c rest hshort ih =>
    rw [List.cons.injEq, hasEscape_cons, not_or, ih]
    refine ⟨fun hr => ⟨?_, hr.2⟩, fun hr => ⟨rfl, hr.2⟩⟩
    rintro ⟨h, l, rest', rfl, -⟩
    exact hshort h l rest' rfl
  | case4 =>
    refine iff_of_true rfl ?_
    rintro ⟨c, h, l, -, hin⟩
    exact absurd (List.infix_nil.mp hin) (by simp)

theorem not_hasEscape_of_notMem {s : List Char} (hs : '%' ∉ s) : ¬ HasEscape s := by
  rintro ⟨c, h, l, hesc, hin⟩
  have hc : c = '%' := by
    by_contra hne
    simp [escape_eq_none hne] at hesc
  exact hs (hc ▸ hin.subset List.mem_cons_self)

/-! ## Queries -/

/-- A name and its value. -/
abbrev Pair := List Char × List Char

/-- One pair, written `name=value`. -/
def render (p : Pair) : List Char := p.1 ++ '=' :: p.2

/-- The query that gives the pairs `p :: ps`, nothing escaped. -/
def query (p : Pair) (ps : List Pair) : List Char :=
  render p ++ ps.flatMap fun q => '&' :: render q

/-- The query part of a target: what follows the first `?`. -/
def queryOf (target : List Char) : List Char := (cut '?' target).2

/-- The pairs a reader finds before decoding: pieces between `&`, each cut at its first `=`. -/
def splitQuery (q : List Char) : List Pair := (q.splitOn '&').map (cut '=')

/-- The pairs a reader finds. -/
def decodeQuery (q : List Char) : List Pair :=
  (splitQuery q).map fun p => (percentDecode p.1, percentDecode p.2)

theorem splitOn_query (p : Pair) (ps : List Pair) :
    (query p ps).splitOn '&' = (p :: ps).flatMap fun q => (render q).splitOn '&' := by
  have h : (ps.flatMap fun q => '&' :: render q) = (ps.map render).flatMap ('&' :: ·) := by
    rw [List.flatMap_map]
  rw [query, h, splitOn_flatMap_cons, List.flatMap_map, List.flatMap_cons]

/-- A name that no delimiter and no escape can be read out of. -/
structure PlainName (s : List Char) : Prop where
  amp : '&' ∉ s
  eq : '=' ∉ s
  percent : '%' ∉ s

theorem amp_mem_render {p : Pair} (hp : PlainName p.1) : '&' ∈ render p ↔ '&' ∈ p.2 := by
  simp [render, hp.amp]

/-- **Pairs without `&` are found again**, each cut where it was joined. -/
theorem splitQuery_query {p : Pair} {ps : List Pair} (hname : ∀ q ∈ p :: ps, PlainName q.1)
    (hamp : ∀ q ∈ p :: ps, '&' ∉ q.2) : splitQuery (query p ps) = p :: ps := by
  have hsplit : ∀ q ∈ p :: ps, (render q).splitOn '&' = [render q] := fun q hq =>
    List.splitOn_eq_singleton (mt (amp_mem_render (hname q hq)).mp (hamp q hq))
  have hcut : ∀ q ∈ p :: ps, cut '=' (render q) = q := fun q hq => cut_append (hname q hq).eq q.2
  rw [splitQuery, splitOn_query, List.flatMap_congr hsplit, ← List.map_eq_flatMap, List.map_map]
  exact (List.map_congr_left hcut).trans (List.map_id _)

/-- Every `&` in a value makes a piece of its own. -/
theorem length_splitQuery_query {p : Pair} {ps : List Pair} (hname : ∀ q ∈ p :: ps, PlainName q.1) :
    (splitQuery (query p ps)).length
      = (p :: ps).length + ((p :: ps).map fun q => q.2.count '&').sum := by
  have hcount : ∀ q ∈ p :: ps, ((render q).splitOn '&').length = 1 + q.2.count '&' := by
    intro q hq
    rw [length_splitOn, render, List.count_append, List.count_eq_zero.mpr (hname q hq).amp]
    simp [Nat.add_comm]
  rw [splitQuery, List.length_map, splitOn_query, List.length_flatMap, List.map_congr_left hcount,
    List.sum_map_add]
  simp [Nat.add_comm]

theorem eq_of_sum_eq {ι : Type*} {f g : ι → ℕ} :
    ∀ {l : List ι}, (∀ x ∈ l, f x ≤ g x) → (l.map f).sum = (l.map g).sum → ∀ x ∈ l, f x = g x
  | [], _, _ => by simp
  | a :: l, hle, hsum => by
      have ha := hle a List.mem_cons_self
      have hl : (l.map f).sum ≤ (l.map g).sum :=
        List.sum_le_sum fun x hx => hle x (List.mem_cons_of_mem _ hx)
      simp only [List.map_cons, List.sum_cons] at hsum
      have ih := eq_of_sum_eq (fun x hx => hle x (List.mem_cons_of_mem _ hx))
        (show (l.map f).sum = (l.map g).sum by omega)
      exact List.forall_mem_cons.mpr ⟨by omega, ih⟩

/-- **A query written without escaping is read back exactly when no value holds an `&` or a percent
escape.** -/
theorem decodeQuery_query_iff {p : Pair} {ps : List Pair} (hname : ∀ q ∈ p :: ps, PlainName q.1) :
    (decodeQuery (query p ps)).Perm (p :: ps) ↔
      ∀ q ∈ p :: ps, '&' ∉ q.2 ∧ ¬ HasEscape q.2 := by
  have hdecode : (∀ q ∈ p :: ps, '&' ∉ q.2) →
      decodeQuery (query p ps) = (p :: ps).map fun q => (q.1, percentDecode q.2) := fun hamp => by
    rw [decodeQuery, splitQuery_query hname hamp]
    refine List.map_congr_left fun q hq => Prod.ext ?_ rfl
    exact (percentDecode_eq_self_iff _).mpr (not_hasEscape_of_notMem (hname q hq).percent)
  constructor
  · intro hperm
    have hamp : ∀ q ∈ p :: ps, '&' ∉ q.2 := by
      have hlen := hperm.length_eq
      rw [decodeQuery, List.length_map, length_splitQuery_query hname] at hlen
      have hzero : ((p :: ps).map fun _ => 0).sum = ((p :: ps).map fun q => q.2.count '&').sum := by
        have h0 : ((p :: ps).map fun _ => 0).sum = 0 := by simp
        omega
      intro q hq
      exact List.count_eq_zero.mp (eq_of_sum_eq (fun _ _ => Nat.zero_le _) hzero q hq).symm
    -- decoding only shortens a value, so equal totals leave every value as it was
    have hsum : ((p :: ps).map fun q => (percentDecode q.2).length).sum
        = ((p :: ps).map fun q => q.2.length).sum := by
      have := (hperm.map fun q : Pair => q.2.length).sum_eq
      rwa [hdecode hamp, List.map_map] at this
    have hsame := eq_of_sum_eq (fun q _ => length_percentDecode_le q.2) hsum
    exact fun q hq => ⟨hamp q hq, (percentDecode_eq_self_iff _).mp
      (percentDecode_eq_self_of_length _ (hsame q hq))⟩
  · intro h
    rw [hdecode fun q hq => (h q hq).1]
    have hid : ∀ q ∈ p :: ps, (q.1, percentDecode q.2) = q := fun q hq =>
      Prod.ext rfl ((percentDecode_eq_self_iff _).mpr (h q hq).2)
    exact .of_eq ((List.map_congr_left hid).trans (List.map_id _))

end UrlQuery
