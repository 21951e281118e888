import XaMain.Lib.Decimal

/-!
# Reading internet addresses

`Inet.inetAton` is `inet_aton` of the C library, as it is documented: an address is written in one
to four parts with dots between them, each part in decimal, in octal if it starts with a `0`, or in
hexadecimal if it starts with `0x`, and the last part fills the bytes that are left.

A text of four decimal numerals is therefore not always read as the address with these four bytes.
`readPart_eq_iff` says which numerals are read as what they denote: those that do not start with a
`0`, and those that denote less than 8.
-/

set_option autoImplicit false

namespace Inet

open Decimal

/-! ## The definition -/

/-- The value of a digit, in any base up to 16. -/
def digitValue (c : Char) : Option Nat :=
  if c.isDigit then some (c.toNat - '0'.toNat)
  else if 'a' ≤ c ∧ c ≤ 'f' then some (c.toNat - 'a'.toNat + 10)
  else if 'A' ≤ c ∧ c ≤ 'F' then some (c.toNat - 'A'.toNat + 10)
  else none

/-- The number read so far, with one more digit. -/
def readDigit (b n : Nat) (c : Char) : Option Nat :=
  (digitValue c).bind fun d ↦ if d < b then some (b * n + d) else none

/-- The number that digits denote in base `b`, if they are digits of that base. -/
def readDigits (b : Nat) (ds : List Char) : Option Nat := ds.foldlM (readDigit b) 0

/-- One part of an address. -/
def readPart : List Char → Option Nat
  | [] => none
  | '0' :: 'x' :: ds => if ds = [] then none else readDigits 16 ds
  | '0' :: 'X' :: ds => if ds = [] then none else readDigits 16 ds
  | '0' :: ds => readDigits 8 ds
  | ds => readDigits 10 ds

/-- The address that parts make up. -/
def assemble : List Nat → Option UInt32
  | [a] => if a < 4294967296 then some (.ofNat a) else none
  | [a, b] => if a < 256 ∧ b < 16777216 then some (.ofNat (a * 16777216 + b)) else none
  | [a, b, c] =>
    if a < 256 ∧ b < 256 ∧ c < 65536 then some (.ofNat ((a * 256 + b) * 65536 + c)) else none
  | [a, b, c, d] =>
    if a < 256 ∧ b < 256 ∧ c < 256 ∧ d < 256 then
      some (.ofNat (((a * 256 + b) * 256 + c) * 256 + d))
    else none
  | _ => none

/-- `inet_aton` -/
def inetAton (s : String) : Option UInt32 :=
  ((s.toList.splitOn '.').mapM readPart).bind assemble

/-! ## The numerals it reads as decimal -/

theorem digitValue_of_isDigit {c : Char} (h : c.isDigit = true) :
    digitValue c = some (c.toNat - '0'.toNat) := if_pos h

theorem readDigits_concat (b : Nat) (ds : List Char) (c : Char) :
    readDigits b (ds ++ [c]) = (readDigits b ds).bind fun n ↦ readDigit b n c := by
  rw [readDigits, List.foldlM_append, readDigits]
  simp

theorem readDigits_decimal {ds : List Char} (h : ∀ c ∈ ds, c.isDigit = true) :
    readDigits 10 ds = some (value ds) := by
  induction ds using List.reverseRecOn with
  | nil => rfl
  | append_singleton ds c ih =>
    have hc : c.isDigit = true := h c (by simp)
    rw [readDigits_concat, ih fun x hx ↦ h x (List.mem_append_left _ hx), value_concat,
      Option.bind_some, readDigit, digitValue_of_isDigit hc, Option.bind_some,
      if_pos (digit_lt hc)]

/-- In octal digits denote at most what they denote in decimal, and the same only if that is a
single octal digit. -/
theorem le_of_readDigits_octal {ds : List Char} (h : ∀ c ∈ ds, c.isDigit = true) {n : Nat}
    (hn : readDigits 8 ds = some n) : n ≤ value ds ∧ (n = value ds → n < 8) := by
  induction ds using List.reverseRecOn generalizing n with
  | nil =>
    rw [← Option.some.inj hn]
    exact ⟨Nat.zero_le _, fun _ ↦ by decide⟩
  | append_singleton ds c ih =>
    rw [readDigits_concat, Option.bind_eq_some_iff] at hn
    obtain ⟨m, hm, hn⟩ := hn
    rw [readDigit, digitValue_of_isDigit (h c (by simp)), Option.bind_some] at hn
    split_ifs at hn with hlt
    have hle := (ih (fun x hx ↦ h x (List.mem_append_left _ hx)) hm).1
    have hvalue := value_concat ds c
    rw [← Option.some.inj hn]
    omega

theorem readDigits_octal_of_lt {ds : List Char} (h : ∀ c ∈ ds, c.isDigit = true)
    (hlt : value ds < 8) : readDigits 8 ds = some (value ds) := by
  induction ds using List.reverseRecOn with
  | nil => rfl
  | append_singleton ds c ih =>
    rw [value_concat] at hlt ⊢
    have hzero : value ds = 0 := by omega
    rw [readDigits_concat, ih (fun x hx ↦ h x (List.mem_append_left _ hx)) (by omega), hzero,
      Option.bind_some, readDigit, digitValue_of_isDigit (h c (by simp)), Option.bind_some,
      if_pos (by omega)]

/-- A numeral with a leading `0` is read in octal. -/
theorem readPart_zero {ds : List Char} (h : ∀ c ∈ ds, c.isDigit = true) :
    readPart ('0' :: ds) = readDigits 8 ds := by
  rcases ds with _ | ⟨c, ds⟩
  · rfl
  · have hc : c.isDigit = true := h c List.mem_cons_self
    have hx : c ≠ 'x' := by rintro rfl; exact absurd hc (by decide)
    have hX : c ≠ 'X' := by rintro rfl; exact absurd hc (by decide)
    simp [readPart, hx, hX]

/-- Any other numeral is read in decimal. -/
theorem readPart_decimal {ds : List Char} (h : Numeral ds) (hzero : ds.head? ≠ some '0') :
    readPart ds = some (value ds) := by
  rw [← readDigits_decimal h.2]
  obtain ⟨c, l, rfl⟩ := List.exists_cons_of_ne_nil h.1
  have hc : c ≠ '0' := fun hc ↦ hzero (by rw [hc]; rfl)
  simp [readPart, hc]

/-- **Which numerals are read as what they denote.** -/
theorem readPart_eq_iff {ds : List Char} (h : Numeral ds) :
    readPart ds = some (value ds) ↔ ¬ (ds.head? = some '0' ∧ 8 ≤ value ds) := by
  by_cases hzero : ds.head? = some '0'
  · obtain ⟨l, rfl⟩ : ∃ l, ds = '0' :: l := by
      obtain ⟨c, l, rfl⟩ := List.exists_cons_of_ne_nil h.1
      exact ⟨l, by rw [Option.some.inj hzero]⟩
    have hl : ∀ c ∈ l, c.isDigit = true := fun c hc ↦ h.2 c (List.mem_cons_of_mem _ hc)
    rw [readPart_zero hl, value_zero_cons, and_iff_right hzero, Nat.not_le]
    exact ⟨fun hread ↦ (le_of_readDigits_octal hl hread).2 rfl, readDigits_octal_of_lt hl⟩
  · exact iff_of_true (readPart_decimal h hzero) fun hn ↦ hzero hn.1

/-! ## Four parts -/

/-- All of a list is read, or none of it. -/
theorem mapM_eq_some_iff {α β : Type} {f : α → Option β} {l : List α} {m : List β} :
    l.mapM f = some m ↔ l.map f = m.map some := by
  induction l generalizing m with
  | nil => cases m <;> simp
  | cons x l ih =>
    cases hx : f x with
    | none => cases m <;> simp [List.mapM_cons, hx]
    | some y =>
      cases m with
      | nil => cases hl : l.mapM f <;> simp [List.mapM_cons, hx, hl]
      | cons z m =>
        rw [List.map_cons, List.map_cons, List.cons.injEq, hx, ← ih]
        cases hl : l.mapM f <;> simp [List.mapM_cons, hx, hl]

/-- The number with these bytes, the first one first. -/
def ofBytes (ns : List Nat) : Nat := ns.foldl (fun a n ↦ 256 * a + n) 0

theorem exists_four {α : Type} {l : List α} (h : l.length = 4) :
    ∃ a b c d, l = [a, b, c, d] := by
  match l, h with
  | [a, b, c, d], _ => exact ⟨a, b, c, d, rfl⟩

theorem assemble_four {ns : List Nat} (hlen : ns.length = 4) {a : UInt32} :
    assemble ns = some a ↔ (∀ n ∈ ns, n < 256) ∧ a.toNat = ofBytes ns := by
  obtain ⟨n₁, n₂, n₃, n₄, rfl⟩ := exists_four hlen
  simp only [assemble, ofBytes, List.foldl_cons, List.foldl_nil, List.forall_mem_cons]
  constructor
  · intro h
    split_ifs at h with hlt
    rw [← Option.some.inj h, UInt32.toNat_ofNat']
    exact ⟨by simpa using hlt, by omega⟩
  · rintro ⟨hlt, ha⟩
    rw [if_pos (by simpa using hlt), Option.some.injEq, ← UInt32.toNat_inj, UInt32.toNat_ofNat', ha]
    omega

theorem ofBytes_lt {ns : List Nat} (hlen : ns.length = 4) (h : ∀ n ∈ ns, n < 256) :
    ofBytes ns < 4294967296 := by
  obtain ⟨n₁, n₂, n₃, n₄, rfl⟩ := exists_four hlen
  simp only [List.forall_mem_cons] at h
  simp only [ofBytes, List.foldl_cons, List.foldl_nil]
  omega

/-- A number has one list of four bytes. -/
theorem ofBytes_injective {ms ns : List Nat} (hms : ms.length = 4) (hns : ns.length = 4)
    (hm : ∀ m ∈ ms, m < 256) (hn : ∀ n ∈ ns, n < 256) (h : ofBytes ms = ofBytes ns) : ms = ns := by
  obtain ⟨m₁, m₂, m₃, m₄, rfl⟩ := exists_four hms
  obtain ⟨n₁, n₂, n₃, n₄, rfl⟩ := exists_four hns
  simp only [List.forall_mem_cons] at hm hn
  simp only [ofBytes, List.foldl_cons, List.foldl_nil] at h
  simp only [List.cons.injEq, and_true]
  omega

end Inet
