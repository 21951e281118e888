import XaMain.Exception
import XaMain.Lib.Annotate
import XaMain.Lib.Comp
import XaMain.Lib.Regex

/-!
# Pretty timestamps

`to_pretty_datetime` of `pca::utils` looks for a label with ten digits after it, puts the time in
words behind the digits, and goes on with the text that follows.  The formatter of local times is
given.

## What is here

* `toPrettyDatetime` — the loop, with a record of the annotations it makes.
* `timestampAt` — whether a timestamp ends at a place of a text.  No two timestamps overlap, so one
  that ends behind another starts behind it (`timestampAt_append`), and the timestamps of the text
  that is left are those of the whole text that have not been passed.
* `toPrettyDatetime_annotates` — the loop ends, and annotates every timestamp once.
* `toPrettyDatetime_keepsNumbers_iff` — when no annotation stands within a number.
-/

set_option autoImplicit false

namespace XaMain
namespace Utils

/-! ## The function -/

/-- `"sec" : ` -/
def secLabel : List Char := ['"', 's', 'e', 'c', '"', ' ', ':', ' ']

/-- `"sec" : [0-9]{10}` -/
def secRegex : Regex := .seq (.lit secLabel) (.times (.cls Char.isDigit) 10)

/-- `std::stol`, for a `long` of 64 bits. -/
def stol (l : List Char) : Except Exception Int :=
  match Decimal.strtol l with
  | none => .error (invalidArgument "stol")
  | some v => if -2 ^ 63 ≤ v ∧ v < 2 ^ 63 then .ok v else .error (outOfRange "stol")

/-- `find`: where a text occurs first in another one. -/
def findText (text : List Char) : List Char → Option Nat
  | [] => if text = [] then some 0 else none
  | c :: l => if text.isPrefixOf (c :: l) then some 0 else (findText text l).map (· + 1)

/-- `sec.erase(0, sec.find(" : ") + 3)`.  The position of a text that does not occur is the largest
number there is, and the sum wraps around. -/
def eraseLabel (sec : List Char) : List Char :=
  match findText [' ', ':', ' '] sec with
  | some i => sec.drop (i + 3)
  | none => sec.drop 2

/-- The state of the loop. -/
structure Rewriting where
  /-- The stream that is written to. -/
  ss : List Char := []
  /-- What is still to be searched. -/
  s : List Char
  /-- What has been taken off it. -/
  taken : List Char := []
  /-- The annotations made: what of the text stands before each, and the number it is about. -/
  notes : List (List Char × Int) := []

/-- `ss << text` -/
def put (text : List Char) : Comp Rewriting Exception Unit :=
  Comp.modify fun r ↦ { r with ss := r.ss ++ text }

/-- The text of an annotation. -/
def timeNote (toStr : Int → String) (n : Int) : List Char :=
  [' ', '('] ++ (toStr n).toList ++ [')']

/-- The body of the loop. -/
def rewriteMatch (toStr : Int → String) (m : Regex.Found) : Comp Rewriting Exception Unit := do
  put m.before
  put m.matched
  let n ← Comp.ofExcept (stol (eraseLabel m.matched))
  put (timeNote toStr n)
  Comp.modify fun r ↦ { r with
    s := m.after
    taken := r.taken ++ (m.before ++ m.matched)
    notes := r.notes ++ [(r.taken ++ (m.before ++ m.matched), n)] }

/-- The loop. -/
def rewriteLoop (toStr : Int → String) : Nat → Comp Rewriting Exception Unit
  | 0 => Comp.exhausted
  | fuel + 1 => do
    let s ← Comp.gets (·.s)
    match secRegex.regexSearch s with
    | none => return ()
    | some m => do
      rewriteMatch toStr m
      rewriteLoop toStr fuel

/-- `to_pretty_datetime`, with fuel for its loop. -/
def prettyDatetime (toStr : Int → String) (fuel : Nat) : Comp Rewriting Exception String := do
  rewriteLoop toStr fuel
  let s ← Comp.gets (·.s)
  put s
  let ss ← Comp.gets (·.ss)
  return String.ofList ss

/-- `to_pretty_datetime`.  Every turn of the loop takes something off the text. -/
def toPrettyDatetime (toStr : Int → String) (s : String) : Outcome Exception String × Rewriting :=
  prettyDatetime toStr (s.toList.length + 1) { s := s.toList }

/-! ## Timestamps -/

/-- The digits of a timestamp. -/
def IsSeconds (ds : List Char) : Prop := ds.length = 10 ∧ ∀ c ∈ ds, c.isDigit = true

instance (ds : List Char) : Decidable (IsSeconds ds) :=
  decidable_of_iff (ds.length = 10 ∧ ds.all Char.isDigit = true) <| by
    rw [IsSeconds, List.all_eq_true]

/-- The number of the timestamp that ends where `b` does, if there is one. -/
def timestampAt (b : List Char) : Option Int :=
  let w := b.drop (b.length - 18)
  if w.take 8 = secLabel ∧ IsSeconds (w.drop 8) then some (Decimal.value (w.drop 8)) else none

theorem length_secLabel : secLabel.length = 8 := rfl

theorem timestampAt_eq_some_iff {b : List Char} {n : Int} : timestampAt b = some n ↔
    ∃ p ds, b = p ++ (secLabel ++ ds) ∧ IsSeconds ds ∧ n = Decimal.value ds := by
  constructor
  · intro h
    simp only [timestampAt] at h
    split_ifs at h with hw
    refine ⟨b.take (b.length - 18), (b.drop (b.length - 18)).drop 8, ?_, hw.2,
      (Option.some.inj h).symm⟩
    rw [← hw.1, List.take_append_drop, List.take_append_drop]
  · rintro ⟨p, ds, rfl, hds, rfl⟩
    have hlen : (p ++ (secLabel ++ ds)).length - 18 = p.length := by
      rw [List.length_append, List.length_append, hds.1, length_secLabel]
      omega
    simp only [timestampAt, hlen, List.drop_left]
    exact if_pos ⟨rfl, hds⟩

theorem timestampAt_seconds {ds : List Char} (h : IsSeconds ds) (p : List Char) :
    timestampAt (p ++ (secLabel ++ ds)) = some (Decimal.value ds : Int) :=
  timestampAt_eq_some_iff.mpr ⟨p, ds, rfl, h, rfl⟩

/-- The label does not overlap with itself. -/
theorem secLabel_border {k : Nat} (hk : k < 8) (hpos : 0 < k) :
    ¬ secLabel.drop k <+: secLabel := by
  rw [← List.isPrefixOf_iff_prefix]
  revert k
  decide

/-- No digit starts a timestamp. -/
theorem not_digit_of_label {ds y z : List Char} (hy : y ≠ []) (h : secLabel ++ ds = y ++ z) :
    ¬ ∀ c ∈ y, c.isDigit = true := by
  intro hdigits
  obtain ⟨c, y, rfl⟩ := List.exists_cons_of_ne_nil hy
  have hc : '"' = c := (List.cons.inj h).1
  have hdigit := hdigits c List.mem_cons_self
  rw [← hc] at hdigit
  exact absurd hdigit (by decide)

/-- A timestamp does not start inside another one. -/
theorem not_inside {ds ds' x y z : List Char} (hds : IsSeconds ds) (hx : x ≠ []) (hy : y ≠ [])
    (h : secLabel ++ ds = x ++ y) (h' : secLabel ++ ds' = y ++ z) : False := by
  rcases List.append_eq_append_iff.mp h with ⟨a, rfl, rfl⟩ | ⟨m, hlabel, rfl⟩
  · -- the second one would start with a digit of the first one
    exact not_digit_of_label hy h' fun c hc ↦ hds.2 c (List.mem_append_right a hc)
  · by_cases hm : m = []
    · rw [hm] at hy h'
      exact not_digit_of_label hy h' hds.2
    · -- it would start in the label of the first one
      have hlen : x.length + m.length = 8 := by rw [← List.length_append, ← hlabel]; rfl
      have hdrop : secLabel.drop x.length = m := by rw [hlabel, List.drop_left]
      have hpos : 0 < x.length := List.length_pos_iff.mpr hx
      have hmpos : 0 < m.length := List.length_pos_iff.mpr hm
      refine secLabel_border (k := x.length) (by omega) hpos ?_
      rw [hdrop]
      rw [List.append_assoc] at h'
      refine List.prefix_of_prefix_length_le (h' ▸ List.prefix_append m _)
        (List.prefix_append secLabel ds') ?_
      rw [length_secLabel]
      omega

/-- The places where a search may start afresh: the start of the text, and where a timestamp
ends. -/
def AtBoundary (b : List Char) : Prop := b = [] ∨ ∃ n, timestampAt b = some n

/-- A timestamp that ends behind such a place starts behind it. -/
theorem starts_behind {b y p ds : List Char} (hb : AtBoundary b) (hy : y ≠ [])
    (hds : IsSeconds ds) (h : b ++ y = p ++ (secLabel ++ ds)) : ∃ a, y = a ++ (secLabel ++ ds) := by
  rcases List.append_eq_append_iff.mp h with ⟨a, -, hbehind⟩ | ⟨m, hm, hw⟩
  · exact ⟨a, hbehind⟩
  · by_cases hmnil : m = []
    · rw [hmnil, List.nil_append] at hw
      exact ⟨[], hw.symm⟩
    · rcases hb with rfl | ⟨n, hn⟩
      · exact absurd (List.append_eq_nil_iff.mp hm.symm).2 hmnil
      · -- the one that ends at `b` is too long to stand within `m`, so the other starts inside it
        obtain ⟨p₁, ds₁, hb, hds₁, -⟩ := timestampAt_eq_some_iff.mp hn
        have hlen : m.length < 18 := by
          have htotal := congrArg List.length hw
          have hpos : 0 < y.length := List.length_pos_iff.mpr hy
          rw [List.length_append, List.length_append, length_secLabel, hds.1] at htotal
          omega
        have hlen₁ : (secLabel ++ ds₁).length = 18 := by
          rw [List.length_append, length_secLabel, hds₁.1]
        rcases List.append_eq_append_iff.mp (hb.symm.trans hm) with ⟨a, -, hinside⟩ | ⟨a, -, hover⟩
        · have ha : a ≠ [] := by
            rintro rfl
            rw [hinside, List.nil_append] at hlen₁
            omega
          exact (not_inside hds₁ ha hmnil hinside hw).elim
        · have hlonger := congrArg List.length hover
          rw [List.length_append, hlen₁] at hlonger
          omega

/-- Behind such a place there are no other timestamps than those of the rest of the text. -/
theorem timestampAt_append {b y : List Char} (hb : AtBoundary b) (hy : y ≠ []) :
    timestampAt (b ++ y) = timestampAt y := by
  have hiff : ∀ n, timestampAt (b ++ y) = some n ↔ timestampAt y = some n := by
    intro n
    rw [timestampAt_eq_some_iff, timestampAt_eq_some_iff]
    constructor
    · rintro ⟨p, ds, hsplit, hds, rfl⟩
      obtain ⟨a, ha⟩ := starts_behind hb hy hds hsplit
      exact ⟨a, ds, ha, hds, rfl⟩
    · rintro ⟨p, ds, rfl, hds, rfl⟩
      exact ⟨b ++ p, ds, (List.append_assoc b p _).symm, hds, rfl⟩
  exact Option.ext hiff

/-! ## One turn of the loop -/

theorem matches_secRegex {b w t : List Char} {g : Groups} :
    secRegex.Matches b w t g ↔ (∃ ds, w = secLabel ++ ds ∧ IsSeconds ds) ∧ g = [] := by
  rw [secRegex, Regex.matches_seq]
  constructor
  · rintro ⟨w₁, w₂, g₁, g₂, rfl, rfl, hlabel, hdigits⟩
    obtain ⟨rfl, rfl⟩ := Regex.matches_lit.mp hlabel
    obtain ⟨hlen, hds, rfl⟩ := Regex.matches_times_cls.mp hdigits
    exact ⟨⟨w₂, rfl, hlen, hds⟩, rfl⟩
  · rintro ⟨⟨ds, rfl, hlen, hds⟩, rfl⟩
    exact ⟨secLabel, ds, [], [], rfl, rfl, Regex.matches_lit.mpr ⟨rfl, rfl⟩,
      Regex.matches_times_cls.mpr ⟨hlen, hds, rfl⟩⟩

/-- If the search finds nothing no timestamp is left. -/
theorem search_none {s b : List Char} (hb : AtBoundary b) (h : secRegex.regexSearch s = none) :
    ∀ y z, s = y ++ z → y ≠ [] → timestampAt (b ++ y) = none := by
  intro y z hs hy
  rw [timestampAt_append hb hy]
  by_contra hsome
  obtain ⟨n, hn⟩ := Option.ne_none_iff_exists'.mp hsome
  obtain ⟨p, ds, rfl, hds, -⟩ := timestampAt_eq_some_iff.mp hn
  rw [List.append_assoc] at hs
  exact Regex.regexSearch_eq_none h hs (matches_secRegex.mpr ⟨⟨ds, rfl, hds⟩, rfl⟩)

/-- What the search finds is the next timestamp. -/
structure IsNext (b s : List Char) (m : Regex.Found) (ds : List Char) : Prop where
  split : s = (m.before ++ m.matched) ++ m.after
  seconds : IsSeconds ds
  matched : m.matched = secLabel ++ ds
  first : ∀ y z, m.before ++ m.matched = y ++ z → y ≠ [] → z ≠ [] → timestampAt (b ++ y) = none

theorem IsNext.ne_nil {b s ds : List Char} {m : Regex.Found} (h : IsNext b s m ds) :
    m.before ++ m.matched ≠ [] := by
  rw [h.matched]
  simp [secLabel]

theorem IsNext.timestampAt_eq {b s ds : List Char} {m : Regex.Found} (h : IsNext b s m ds) :
    timestampAt (b ++ (m.before ++ m.matched)) = some (Decimal.value ds : Int) := by
  rw [h.matched, ← List.append_assoc]
  exact timestampAt_seconds h.seconds _

theorem search_some {s b : List Char} {m : Regex.Found} (hb : AtBoundary b)
    (h : secRegex.regexSearch s = some m) : ∃ ds, IsNext b s m ds := by
  obtain ⟨hs, ⟨g, hg⟩, hfirst⟩ := Regex.regexSearch_eq_some h
  obtain ⟨⟨ds, hmatched, hds⟩, -⟩ := matches_secRegex.mp hg
  refine ⟨ds, by rw [hs, List.append_assoc], hds, hmatched, fun y z hsplit hy hz ↦ ?_⟩
  rw [timestampAt_append hb hy]
  by_contra hsome
  obtain ⟨n, hn⟩ := Option.ne_none_iff_exists'.mp hsome
  obtain ⟨p, ds', rfl, hds', -⟩ := timestampAt_eq_some_iff.mp hn
  have htext : s = p ++ ((secLabel ++ ds') ++ (z ++ m.after)) := by
    rw [hs, ← List.append_assoc, hsplit]
    simp only [List.append_assoc]
  have hle := hfirst _ _ _ _ htext (matches_secRegex.mpr ⟨⟨ds', rfl, hds'⟩, rfl⟩)
  have hlen := congrArg List.length hsplit
  have hpos : 0 < z.length := List.length_pos_iff.mpr hz
  simp only [hmatched, List.length_append, hds.1, hds'.1] at hlen
  omega

theorem eraseLabel_label (ds : List Char) : eraseLabel (secLabel ++ ds) = ds := rfl

/-- Ten digits are a number that fits. -/
theorem stol_seconds {ds : List Char} (h : IsSeconds ds) : stol ds = .ok (Decimal.value ds) := by
  have hne : ds ≠ [] := by rintro rfl; exact absurd h.1 (by decide)
  have hread : Decimal.strtol ds = some (Decimal.value ds : Int) :=
    Decimal.strtol_eq_some_iff.mpr (Decimal.Numeral.readsInt ⟨hne, h.2⟩)
  have hlt := Decimal.value_lt h.2
  rw [h.1] at hlt
  rw [stol, hread]
  exact if_pos (by omega)

theorem rewriteMatch_apply (toStr : Int → String) {m : Regex.Found} {ds : List Char}
    (hds : IsSeconds ds) (hm : m.matched = secLabel ++ ds) (r : Rewriting) :
    rewriteMatch toStr m r = (.returned (),
      { ss := r.ss ++ ((m.before ++ m.matched) ++ timeNote toStr (Decimal.value ds))
        s := m.after
        taken := r.taken ++ (m.before ++ m.matched)
        notes := r.notes
          ++ [(r.taken ++ (m.before ++ m.matched), (Decimal.value ds : Int))] }) := by
  have hn : stol (eraseLabel m.matched) = .ok (Decimal.value ds) := by
    rw [hm, eraseLabel_label, stol_seconds hds]
  simp only [rewriteMatch, put, Comp.bind_apply, Comp.modify_apply, Comp.ofExcept_apply, hn,
    Outcome.ofExcept, List.append_assoc]

/-! ## The run -/

/-- What is inserted at a place of a text. -/
def noteAt (toStr : Int → String) (b : List Char) : List Char :=
  (timestampAt b).elim [] (timeNote toStr)

theorem noteAt_of_none (toStr : Int → String) {b : List Char} (h : timestampAt b = none) :
    noteAt toStr b = [] := by
  rw [noteAt, h, Option.elim_none]

/-- **The loop** turns what is left of the text into its annotated form, and records the timestamps
in it. -/
theorem rewriteLoop_run (toStr : Int → String) (fuel : Nat) {r : Rewriting}
    (hb : AtBoundary r.taken) (hfuel : r.s.length < fuel) :
    ∃ r', rewriteLoop toStr fuel r = (.returned (), r') ∧
      r'.ss ++ r'.s = r.ss ++ annotated (noteAt toStr) r.taken r.s ∧
      r'.notes = r.notes ++ marks timestampAt r.taken r.s := by
  induction fuel generalizing r with
  | zero => exact absurd hfuel (Nat.not_lt_zero _)
  | succ fuel ih =>
    rw [rewriteLoop, Comp.bind_returned (Comp.gets_apply _ _)]
    cases hsearch : secRegex.regexSearch r.s with
    | none =>
      have hnone := search_none hb hsearch
      refine ⟨r, rfl, ?_, ?_⟩
      · rw [annotated_of_empty fun y z hs hy ↦ noteAt_of_none toStr (hnone y z hs hy)]
      · rw [marks_of_none hnone, List.append_nil]
    | some m =>
      obtain ⟨ds, hnext⟩ := search_some hb hsearch
      have hat := hnext.timestampAt_eq
      have hlen : m.after.length < fuel := by
        have htotal := congrArg List.length hnext.split
        have hpos : 0 < (m.before ++ m.matched).length := List.length_pos_iff.mpr hnext.ne_nil
        rw [List.length_append] at htotal
        omega
      obtain ⟨r', hrun, hout, hnotes⟩ := ih (r := ⟨_, m.after, r.taken ++ (m.before ++ m.matched),
        _⟩) (Or.inr ⟨_, hat⟩) hlen
      refine ⟨r', ?_, ?_, ?_⟩
      · rw [← hrun]
        exact Comp.bind_returned (rewriteMatch_apply toStr hnext.seconds hnext.matched r) _
      · rw [hout, hnext.split, annotated_append, annotated_of_last hnext.ne_nil
          fun y z hsplit hy hz ↦ noteAt_of_none toStr (hnext.first y z hsplit hy hz), noteAt, hat]
        simp only [Option.elim_some, List.append_assoc]
      · rw [hnotes, hnext.split, marks_append, marks_of_last hnext.ne_nil hnext.first, hat]
        simp only [Option.toList_some, List.map_cons, List.map_nil, List.append_assoc]

theorem toPrettyDatetime_run (toStr : Int → String) (s : String) : ∃ final,
    toPrettyDatetime toStr s
      = (.returned (String.ofList (annotated (noteAt toStr) [] s.toList)), final) ∧
    final.notes = marks timestampAt [] s.toList := by
  obtain ⟨r, hrun, hout, hnotes⟩ := rewriteLoop_run toStr (s.toList.length + 1)
    (r := { s := s.toList }) (Or.inl rfl) (Nat.lt_succ_self _)
  refine ⟨{ r with ss := r.ss ++ r.s }, ?_, hnotes⟩
  rw [toPrettyDatetime, prettyDatetime, Comp.bind_returned hrun, Comp.bind_returned
    (Comp.gets_apply _ _)]
  simp only [put, Comp.bind_apply, Comp.modify_apply, Comp.gets_apply, hout, List.nil_append]
  rfl

/-! ## What the output is -/

/-- What is due at each place of a text: an annotation where a timestamp ends, and nothing else. -/
structure IsNote (toStr : Int → String) (note : List Char → List Char) : Prop where
  timestamp : ∀ p ds, IsSeconds ds →
    note (p ++ (secLabel ++ ds)) = timeNote toStr (Decimal.value ds)
  other : ∀ b, (∀ p ds, IsSeconds ds → b ≠ p ++ (secLabel ++ ds)) → note b = []

theorem noteAt_isNote (toStr : Int → String) : IsNote toStr (noteAt toStr) where
  timestamp p ds hds := by rw [noteAt, timestampAt_seconds hds, Option.elim_some]
  other b hb := by
    refine noteAt_of_none toStr ?_
    by_contra hsome
    obtain ⟨n, hn⟩ := Option.ne_none_iff_exists'.mp hsome
    obtain ⟨p, ds, hsplit, hds, -⟩ := timestampAt_eq_some_iff.mp hn
    exact hb p ds hds hsplit

/-- **`out` is `s` with its timestamps annotated**, and `notes` are the annotations. -/
structure Annotates (toStr : Int → String) (s out : String) (notes : List (List Char × Int)) :
    Prop where
  /-- It is `s` with something inserted, which is the annotation where a timestamp ends. -/
  inserted : ∃ note, IsNote toStr note ∧ out = String.ofList (annotated note [] s.toList)
  /-- It comes in pieces with one annotation behind each, and a rest.  Without the annotations it is
  `s`. -/
  erased : ∃ (pieces : List (List Char)) (rest : List Char), pieces.length = notes.length ∧
    s = String.ofList (pieces.flatten ++ rest) ∧
    out = String.ofList
      ((pieces.zipWith (fun p m ↦ p ++ timeNote toStr m.2) notes).flatten ++ rest)
  /-- Every timestamp is annotated, with its number, and nothing else is. -/
  occurrences : ∀ b n, (b, n) ∈ notes ↔ ∃ p ds q, s.toList = p ++ (secLabel ++ (ds ++ q)) ∧
    IsSeconds ds ∧ b = p ++ (secLabel ++ ds) ∧ n = Decimal.value ds
  /-- They are annotated from left to right, each once. -/
  once : notes.Pairwise fun m n ↦ m.1.length < n.1.length

/-- The marks of a text are its timestamps. -/
theorem mem_marks_iff {x b : List Char} {n : Int} : (b, n) ∈ marks timestampAt [] x ↔
    ∃ p ds q, x = p ++ (secLabel ++ (ds ++ q)) ∧ IsSeconds ds ∧ b = p ++ (secLabel ++ ds) ∧
      n = Decimal.value ds := by
  rw [mem_marks]
  constructor
  · rintro ⟨y, q, hx, -, hb, hmark⟩
    obtain ⟨p, ds, hsplit, hds, hn⟩ := timestampAt_eq_some_iff.mp hmark
    refine ⟨p, ds, q, ?_, hds, hsplit, hn⟩
    rw [hx, ← List.nil_append y, ← hb, hsplit]
    simp only [List.append_assoc]
  · rintro ⟨p, ds, q, hx, hds, rfl, rfl⟩
    refine ⟨p ++ (secLabel ++ ds), q, ?_, ?_, (List.nil_append _).symm, timestampAt_seconds hds p⟩
    · rw [hx]
      simp only [List.append_assoc]
    · simp [secLabel]

/-- **`to_pretty_datetime` terminates, and annotates every timestamp once and changes nothing
else.** -/
theorem toPrettyDatetime_annotates (toStr : Int → String) (s : String) : ∃ out final,
    toPrettyDatetime toStr s = (.returned out, final) ∧ Annotates toStr s out final.notes := by
  obtain ⟨final, hrun, hnotes⟩ := toPrettyDatetime_run toStr s
  refine ⟨_, final, hrun, ⟨_, noteAt_isNote toStr, rfl⟩, ?_, ?_, ?_⟩
  · obtain ⟨pieces, rest, hlen, hs, hout⟩ :=
      annotated_pieces timestampAt (timeNote toStr) [] s.toList
    rw [hnotes]
    refine ⟨pieces, rest, hlen, ?_, congrArg String.ofList hout⟩
    rw [← hs, String.ofList_toList]
  · intro b n
    rw [hnotes, mem_marks_iff]
  · rw [hnotes]
    exact marks_pairwise s.toList

/-! ## Numbers -/

/-- Between `p` and `q`, `r` is a whole number of the text. -/
structure IsRun (x p r q : List Char) : Prop where
  split : x = p ++ (r ++ q)
  numeral : Decimal.Numeral r
  before : ∀ c ∈ p.getLast?, c.isDigit = false
  after : ∀ c ∈ q.head?, c.isDigit = false

/-- **No number is broken apart**, in a run of `to_pretty_datetime` that ends with `out` and has
made the annotations `notes`. -/
structure KeepsNumbers (toStr : Int → String) (s : String) (out : Outcome Exception String)
    (notes : List (List Char × Int)) : Prop where
  /-- What follows the digits of an annotation is not a digit. -/
  complete : ∀ b n, (b, n) ∈ notes → ∀ q, s.toList = b ++ q → ∀ c ∈ q.head?, c.isDigit = false
  /-- A whole number of the text stands in the output, behind what becomes of the text before
  it. -/
  unbroken : ∀ p r q, IsRun s.toList p r q → ∃ rest,
    out = .returned (String.ofList (annotated (noteAt toStr) [] p ++ (r ++ rest)))
  /-- An annotation is that of a whole number. -/
  whole : ∀ b n, (b, n) ∈ notes → ∃ p r q, IsRun s.toList p r q ∧ b = p ++ r ∧
    n = Decimal.value r

section WholeNumbers

variable {x : List Char}
variable (hwhole : ∀ p ds q, x = p ++ (secLabel ++ (ds ++ q)) → IsSeconds ds →
  ∀ c ∈ q.head?, c.isDigit = false)

include hwhole

/-- If no timestamp is followed by another digit, nothing is inserted within a number. -/
theorem annotated_run (toStr : Int → String) {p r q : List Char} (h : IsRun x p r q) :
    annotated (noteAt toStr) p r = r ++ noteAt toStr (p ++ r) := by
  refine annotated_of_last h.numeral.1 fun y z hsplit _ hz ↦ ?_
  refine (noteAt_isNote toStr).other _ fun p' ds hds hb ↦ ?_
  obtain ⟨c, z, rfl⟩ := List.exists_cons_of_ne_nil hz
  have hfollows : x = p' ++ (secLabel ++ (ds ++ (c :: z ++ q))) := by
    calc x = (p ++ y) ++ (c :: z ++ q) := by
          rw [h.split, hsplit]
          simp only [List.append_assoc]
      _ = p' ++ (secLabel ++ (ds ++ (c :: z ++ q))) := by
          rw [hb]
          simp only [List.append_assoc]
  have hother : c.isDigit = false := hwhole p' ds _ hfollows hds c rfl
  have hdigit : c.isDigit = true := h.numeral.2 c (by rw [hsplit]; simp)
  rw [hdigit] at hother
  exact absurd hother (by decide)

/-- And the digits of a timestamp are a number. -/
theorem isRun_seconds {p ds q : List Char} (hx : x = p ++ (secLabel ++ (ds ++ q)))
    (hds : IsSeconds ds) : IsRun x (p ++ secLabel) ds q where
  split := by rw [hx, List.append_assoc]
  numeral := ⟨fun hnil ↦ by simp [IsSeconds, hnil] at hds, hds.2⟩
  before c hc := by
    rw [List.getLast?_append_of_ne_nil p (by decide : secLabel ≠ [])] at hc
    rw [← Option.some.inj (Option.mem_def.mp hc)]
    decide
  after := hwhole p ds q hx hds

end WholeNumbers

/-- **When no annotation stands within a number**: if no timestamp of the text is followed by
another digit. -/
theorem toPrettyDatetime_keepsNumbers_iff (toStr : Int → String) (s : String) :
    KeepsNumbers toStr s (toPrettyDatetime toStr s).1 (toPrettyDatetime toStr s).2.notes ↔
      ∀ p ds q, s.toList = p ++ (secLabel ++ (ds ++ q)) → IsSeconds ds →
        ∀ c ∈ q.head?, c.isDigit = false := by
  obtain ⟨final, hrun, hnotes⟩ := toPrettyDatetime_run toStr s
  rw [hrun]
  constructor
  · intro h p ds q hx hds
    refine h.complete (p ++ (secLabel ++ ds)) (Decimal.value ds) ?_ q ?_
    · rw [hnotes, mem_marks_iff]
      exact ⟨p, ds, q, hx, hds, rfl, rfl⟩
    · rw [hx]
      simp only [List.append_assoc]
  · intro h
    refine ⟨?_, ?_, ?_⟩
    · intro b n hb q hx
      rw [hnotes, mem_marks_iff] at hb
      obtain ⟨p, ds, q', hx', hds, rfl, rfl⟩ := hb
      refine h p ds q ?_ hds
      rw [hx]
      simp only [List.append_assoc]
    · intro p r q hr
      refine ⟨noteAt toStr (p ++ r) ++ annotated (noteAt toStr) (p ++ r) q, ?_⟩
      rw [hr.split, annotated_append, annotated_append, List.nil_append, annotated_run h toStr hr,
        List.append_assoc]
    · intro b n hb
      rw [hnotes, mem_marks_iff] at hb
      obtain ⟨p, ds, q, hx, hds, rfl, rfl⟩ := hb
      exact ⟨p ++ secLabel, ds, q, isRun_seconds h hx hds, (List.append_assoc _ _ _).symm, rfl⟩

/-- A timestamp in milliseconds: the first ten of its digits are annotated. -/
theorem not_keepsNumbers_milliseconds :
    ¬ KeepsNumbers toString "\"sec\" : 1574067066000"
      (toPrettyDatetime toString "\"sec\" : 1574067066000").1
      (toPrettyDatetime toString "\"sec\" : 1574067066000").2.notes := by
  obtain ⟨final, hrun, hnotes⟩ := toPrettyDatetime_run toString "\"sec\" : 1574067066000"
  rw [hrun]
  intro h
  have hnote : (secLabel ++ "1574067066".toList, (1574067066 : Int)) ∈ final.notes := by
    rw [hnotes, mem_marks_iff]
    exact ⟨[], "1574067066".toList, "000".toList, by decide, by decide, rfl, by decide⟩
  have hdigit := h.complete _ _ hnote "000".toList (by decide) '0' rfl
  exact absurd hdigit (by decide)

end Utils
end XaMain
