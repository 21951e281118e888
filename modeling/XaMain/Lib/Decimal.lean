import Mathlib.Algebra.Group.Int.Defs
import Mathlib.Algebra.Group.Nat.Defs
import Mathlib.Data.List.Induction
import Mathlib.Data.List.TakeWhile

/-!
# Decimal numerals, and reading an `int` off a text

`Decimal.stoi` is `std::stoi` with base ten: it skips white space, takes an optional sign and as
many digits as there are, and ignores what follows them.  It fails if there is no digit there, or
if the number does not fit in 32 bits.

`ReadsInt l v` says the same of the whole text, with no reading in it: `l` is white space, a sign,
digits and a tail, and `v` is the number in the middle.  `stoi_eq_ok_iff` and its companions connect
the two, and `Splits.unique` says that there is only one such way to split a text.
-/

set_option autoImplicit false

namespace Decimal

/-- A numeral: digits and nothing else. -/
def Numeral (ds : List Char) : Prop := ds ≠ [] ∧ ∀ c ∈ ds, c.isDigit = true

instance (ds : List Char) : Decidable (Numeral ds) :=
  decidable_of_iff (ds.isEmpty = false ∧ ds.all Char.isDigit = true) <| by
    rw [Numeral, List.isEmpty_eq_false_iff, List.all_eq_true]

/-- The number a numeral denotes. -/
def value (ds : List Char) : Nat := Nat.ofDigitChars 10 ds 0

/-- `isspace` in the C locale. -/
def isSpace (c : Char) : Bool := [' ', '\t', '\n', '\x0b', '\x0c', '\r'].contains c

/-! ## Reading -/

/-- Take off a sign, and say whether it is a minus. -/
def splitSign : List Char → Bool × List Char
  | '-' :: l => (true, l)
  | '+' :: l => (false, l)
  | l => (false, l)

/-- A number with a sign. -/
def signed (minus : Bool) (n : Nat) : Int := if minus then -n else n

/-- The number at the start of a text, as `strtol` reads it. -/
def strtol (l : List Char) : Option Int :=
  let p := splitSign (l.dropWhile isSpace)
  let ds := p.2.takeWhile Char.isDigit
  if ds = [] then none else some (signed p.1 (value ds))

/-- What `stoi` throws. -/
inductive StoiError where
  | invalidArgument
  | outOfRange
  deriving DecidableEq

/-- Does a number fit in an `int`? -/
def FitsInt (v : Int) : Prop := -2 ^ 31 ≤ v ∧ v < 2 ^ 31

instance (v : Int) : Decidable (FitsInt v) := inferInstanceAs (Decidable (_ ∧ _))

/-- `std::stoi` -/
def stoi (l : List Char) : Except StoiError Int :=
  match strtol l with
  | none => .error .invalidArgument
  | some v => if FitsInt v then .ok v else .error .outOfRange

/-! ## What is read -/

/-- A sign, and whether it is a minus. -/
inductive Sign : List Char → Bool → Prop where
  | none : Sign [] false
  | plus : Sign ['+'] false
  | minus : Sign ['-'] true

/-- `l` starts with the number `v`: after white space and a sign come the digits, up to something
that is not a digit. -/
def ReadsInt (l : List Char) (v : Int) : Prop :=
  ∃ ws sign minus ds tail, l = ws ++ (sign ++ (ds ++ tail)) ∧ (∀ c ∈ ws, isSpace c = true) ∧
    Sign sign minus ∧ Numeral ds ∧ (∀ c ∈ tail.head?, c.isDigit = false) ∧
    v = signed minus (value ds)

theorem not_isSpace_of_isDigit {c : Char} (h : c.isDigit = true) : isSpace c = false := by
  by_contra hs
  rw [Bool.not_eq_false, isSpace, List.contains_iff_mem] at hs
  simp only [List.mem_cons, List.not_mem_nil, or_false] at hs
  rcases hs with rfl | rfl | rfl | rfl | rfl | rfl <;> simp at h

theorem splitSign_digit {c : Char} (h : c.isDigit = true) (l : List Char) :
    splitSign (c :: l) = (false, c :: l) := by
  rw [splitSign]
  · rintro l' heq
    rw [List.cons.injEq] at heq
    rw [heq.1] at h
    simp at h
  · rintro l' heq
    rw [List.cons.injEq] at heq
    rw [heq.1] at h
    simp at h

theorem exists_sign (l : List Char) : ∃ sign, Sign sign (splitSign l).1 ∧
    l = sign ++ (splitSign l).2 := by
  unfold splitSign
  split
  · exact ⟨['-'], .minus, rfl⟩
  · exact ⟨['+'], .plus, rfl⟩
  · exact ⟨[], .none, rfl⟩

/-- The digits at the start of a text are all of them. -/
theorem takeWhile_isDigit {ds tail : List Char} (hds : ∀ c ∈ ds, c.isDigit = true)
    (htail : ∀ c ∈ tail.head?, c.isDigit = false) : (ds ++ tail).takeWhile Char.isDigit = ds := by
  rw [List.takeWhile_append_of_pos hds]
  cases tail with
  | nil => simp
  | cons c tail =>
    have hc : c.isDigit = false := htail c rfl
    rw [List.takeWhile_cons_of_neg (by simp [hc]), List.append_nil]

/-- Where the digits end is settled by what follows them. -/
theorem digits_append_inj {ds ds' tail tail' : List Char} (hds : ∀ c ∈ ds, c.isDigit = true)
    (hds' : ∀ c ∈ ds', c.isDigit = true) (htail : ∀ c ∈ tail.head?, c.isDigit = false)
    (htail' : ∀ c ∈ tail'.head?, c.isDigit = false) (h : ds ++ tail = ds' ++ tail') :
    ds = ds' ∧ tail = tail' := by
  have heq : ds = ds' := by
    rw [← takeWhile_isDigit hds htail, h, takeWhile_isDigit hds' htail']
  subst heq
  exact ⟨rfl, List.append_cancel_left h⟩

/-- `l` is white space, a sign, the digits `ds`, and a tail that does not start with a digit. -/
def Splits (l : List Char) (minus : Bool) (ds tail : List Char) : Prop :=
  ∃ ws sign, l = ws ++ (sign ++ (ds ++ tail)) ∧ (∀ c ∈ ws, isSpace c = true) ∧ Sign sign minus ∧
    Numeral ds ∧ ∀ c ∈ tail.head?, c.isDigit = false

/-- What is left of a text after the white space and the sign. -/
theorem Splits.splitSign_eq {l ds tail : List Char} {minus : Bool} (h : Splits l minus ds tail) :
    splitSign (l.dropWhile isSpace) = (minus, ds ++ tail) := by
  obtain ⟨ws, sign, rfl, hws, hsign, ⟨hne, hds⟩, -⟩ := h
  obtain ⟨d, ds', rfl⟩ := List.exists_cons_of_ne_nil hne
  have hd : d.isDigit = true := hds d List.mem_cons_self
  rw [List.dropWhile_append_of_pos hws]
  cases hsign with
  | none =>
    rw [List.nil_append, List.cons_append,
      List.dropWhile_cons_of_neg (by simp [not_isSpace_of_isDigit hd]), splitSign_digit hd]
  | plus => rfl
  | minus => rfl

/-- A text is split in one way only. -/
theorem Splits.unique {l ds tail ds' tail' : List Char} {minus minus' : Bool}
    (h : Splits l minus ds tail) (h' : Splits l minus' ds' tail') :
    minus = minus' ∧ ds = ds' ∧ tail = tail' := by
  have heq := h.splitSign_eq.symm.trans h'.splitSign_eq
  obtain ⟨-, -, -, -, -, hds, htail⟩ := h
  obtain ⟨-, -, -, -, -, hds', htail'⟩ := h'
  obtain ⟨hminus, hrest⟩ := Prod.mk.inj heq
  exact ⟨hminus, digits_append_inj hds.2 hds'.2 htail htail' hrest⟩

theorem readsInt_iff {l : List Char} {v : Int} :
    ReadsInt l v ↔ ∃ minus ds tail, Splits l minus ds tail ∧ v = signed minus (value ds) := by
  constructor
  · rintro ⟨ws, sign, minus, ds, tail, hl, hws, hsign, hds, htail, hv⟩
    exact ⟨minus, ds, tail, ⟨ws, sign, hl, hws, hsign, hds, htail⟩, hv⟩
  · rintro ⟨minus, ds, tail, ⟨ws, sign, hl, hws, hsign, hds, htail⟩, hv⟩
    exact ⟨ws, sign, minus, ds, tail, hl, hws, hsign, hds, htail, hv⟩

/-- **`strtol` reads the number the text starts with.** -/
theorem strtol_eq_some_iff {l : List Char} {v : Int} : strtol l = some v ↔ ReadsInt l v := by
  constructor
  · intro h
    simp only [strtol] at h
    split_ifs at h with hds
    obtain ⟨sign, hsign, hsplit⟩ := exists_sign (l.dropWhile isSpace)
    refine ⟨l.takeWhile isSpace, sign, _,
      (splitSign (l.dropWhile isSpace)).2.takeWhile Char.isDigit,
      (splitSign (l.dropWhile isSpace)).2.dropWhile Char.isDigit, ?_, ?_, hsign, ⟨hds, ?_⟩, ?_, ?_⟩
    · rw [List.takeWhile_append_dropWhile, ← hsplit, List.takeWhile_append_dropWhile]
    · exact fun c hc ↦ List.mem_takeWhile_imp hc
    · exact fun c hc ↦ List.mem_takeWhile_imp hc
    · intro c hc
      have := List.head?_dropWhile_not Char.isDigit (splitSign (l.dropWhile isSpace)).2
      rw [Option.mem_def.mp hc] at this
      simpa using this
    · exact (Option.some.inj h).symm
  · intro h
    obtain ⟨minus, ds, tail, hl, rfl⟩ := readsInt_iff.mp h
    have hsplit := hl.splitSign_eq
    obtain ⟨-, -, -, -, -, hds, htail⟩ := hl
    simp only [strtol, hsplit, takeWhile_isDigit hds.2 htail, if_neg hds.1]

theorem stoi_eq_ok_iff {l : List Char} {v : Int} :
    stoi l = .ok v ↔ ReadsInt l v ∧ FitsInt v := by
  rw [stoi, ← strtol_eq_some_iff]
  constructor
  · intro h
    split at h
    · simp at h
    · rename_i v' hv'
      split_ifs at h with hfits
      · rw [Except.ok.injEq] at h
        rw [← h]
        exact ⟨hv', hfits⟩
  · rintro ⟨hv, hfits⟩
    rw [hv]
    simp only [if_pos hfits]

/-- A digit denotes less than ten. -/
theorem digit_lt {c : Char} (h : c.isDigit = true) : c.toNat - '0'.toNat < 10 := by
  rw [Char.isDigit, Bool.and_eq_true, decide_eq_true_iff, decide_eq_true_iff] at h
  have h9 : c.toNat ≤ 57 := UInt32.le_iff_toNat_le.mp h.2
  have h0 : '0'.toNat = 48 := rfl
  omega

theorem value_concat (ds : List Char) (c : Char) :
    value (ds ++ [c]) = 10 * value ds + (c.toNat - '0'.toNat) := by
  rw [value, Nat.ofDigitChars_append, Nat.ofDigitChars_cons, Nat.ofDigitChars_nil, value]

theorem value_zero_cons (ds : List Char) : value ('0' :: ds) = value ds := by
  rw [value, Nat.ofDigitChars_cons]
  rfl

/-- A number of `n` digits. -/
theorem value_lt {ds : List Char} (h : ∀ c ∈ ds, c.isDigit = true) :
    value ds < 10 ^ ds.length := by
  induction ds using List.reverseRecOn with
  | nil => decide
  | append_singleton ds c ih =>
    have hds := ih fun x hx ↦ h x (List.mem_append_left _ hx)
    have hc := digit_lt (h c (by simp))
    rw [value_concat, List.length_append, List.length_singleton, Nat.pow_succ]
    omega

/-- The decimal notation of a number. -/
theorem numeral_toString (n : Nat) :
    Numeral (toString n).toList ∧ value (toString n).toList = n := by
  have hdigits : (toString n).toList = Nat.toDigits 10 n := Nat.toList_repr
  rw [hdigits]
  exact ⟨⟨Nat.toDigits_ne_nil, fun c ↦ Nat.isDigit_of_mem_toDigits (by decide) (by decide)⟩,
    Nat.ofDigitChars_ten_toDigits⟩

/-- A number can be read back off a text that goes on with something else. -/
theorem toString_append_inj {m n : Nat} {tail tail' : List Char}
    (htail : ∀ c ∈ tail.head?, c.isDigit = false) (htail' : ∀ c ∈ tail'.head?, c.isDigit = false)
    (h : (toString m).toList ++ tail = (toString n).toList ++ tail') : m = n ∧ tail = tail' := by
  obtain ⟨⟨-, hm⟩, hvm⟩ := numeral_toString m
  obtain ⟨⟨-, hn⟩, hvn⟩ := numeral_toString n
  obtain ⟨hdigits, hrest⟩ := digits_append_inj hm hn htail htail' h
  exact ⟨by rw [← hvm, hdigits, hvn], hrest⟩

theorem nat_toString_injective {m n : Nat} (h : toString m = toString n) : m = n := by
  rw [← (numeral_toString m).2, h, (numeral_toString n).2]

theorem minus_notMem_toString (n : Nat) : '-' ∉ (toString n).toList := fun h ↦
  absurd ((numeral_toString n).1.2 '-' h) (by decide)

/-- The notation of an integer tells it. -/
theorem int_toString_injective {m n : Int} (h : toString m = toString n) : m = n := by
  cases m with
  | ofNat m =>
    cases n with
    | ofNat n =>
      have hdigits : toString m = toString n := h
      rw [nat_toString_injective hdigits]
    | negSucc n =>
      have hminus : toString m = "-" ++ toString (n + 1) := h
      exact absurd (by rw [hminus]; simp) (minus_notMem_toString m)
  | negSucc m =>
    cases n with
    | ofNat n =>
      have hminus : "-" ++ toString (m + 1) = toString n := h
      exact absurd (by rw [← hminus]; simp) (minus_notMem_toString n)
    | negSucc n =>
      have hdigits : "-" ++ toString (m + 1) = "-" ++ toString (n + 1) := h
      rw [String.append_right_inj] at hdigits
      rw [Nat.succ.inj (nat_toString_injective hdigits)]

/-- A numeral is read whole. -/
theorem Numeral.readsInt {ds : List Char} (h : Numeral ds) : ReadsInt ds (value ds) :=
  ⟨[], [], false, ds, [], (List.append_nil ds).symm, by simp, .none, h, by simp, rfl⟩

theorem stoi_numeral {ds : List Char} (h : Numeral ds) (hfits : value ds < 2 ^ 31) :
    stoi ds = .ok (value ds) :=
  stoi_eq_ok_iff.mpr ⟨h.readsInt, by rw [FitsInt]; omega⟩

theorem stoi_numeral_outOfRange {ds : List Char} (h : Numeral ds) (hbig : 2 ^ 31 ≤ value ds) :
    stoi ds = .error .outOfRange := by
  have hv : strtol ds = some (value ds : Int) := strtol_eq_some_iff.mpr h.readsInt
  have hfits : ¬ FitsInt (value ds) := by rw [FitsInt]; omega
  rw [stoi, hv]
  simp only [if_neg hfits]

end Decimal
