import XaMain.Yaml.Node

/-!
# Integers in a scalar

`as_integer` returns a `uint32_t`, and reads it with `std::stoi`, whose numbers are those of an
`int` and which ignores what follows them.  `asInteger_exact_iff` says for which texts this makes no
difference.
-/

set_option autoImplicit false

namespace XaMain
namespace Yaml

open Decimal

/-- `s` is a numeral that denotes `v`, but for white space and a plus sign before it. -/
def Denotes (s : String) (v : UInt32) : Prop :=
  ∃ ws sign ds, s.toList = ws ++ (sign ++ ds) ∧ (∀ c ∈ ws, isSpace c = true) ∧ Sign sign false ∧
    Numeral ds ∧ value ds = v.toNat

/-- `as_integer` is the inverse of decimal notation on the text of the node. -/
structure ExactInteger (n : Node) : Prop where
  /-- The notation of a number is read as that number. -/
  reads : ∀ v : UInt32, n.scalar = toString v.toNat → n.asInteger = .ok v
  /-- What is returned is what the text denotes. -/
  denotes : ∀ v, n.asInteger = .ok v → Denotes n.scalar v
  /-- Every other text is rejected. -/
  rejects : (∀ v, ¬ Denotes n.scalar v) → ∃ e, n.asInteger = .error e

/-- `s` is the notation of a number that is too large for an `int`. -/
def UpperHalf (s : String) : Prop := ∃ m, 2 ^ 31 ≤ m ∧ m < 2 ^ 32 ∧ s = toString m

/-- `s` starts with a number that is read, but has a minus sign before it or text after it. -/
def ReadsPart (s : String) : Prop :=
  ∃ minus ds tail, Splits s.toList minus ds tail ∧ FitsInt (signed minus (value ds)) ∧
    (minus = true ∨ tail ≠ [])

theorem Node.asInteger_scalar {n : Node} (h : n.type = .scalar) :
    n.asInteger = (stoi n.scalar).map UInt32.ofInt := by
  rw [Node.asInteger, Node.asScalar, if_neg (not_not_intro h)]
  rfl

theorem Node.asInteger_eq_ok_iff {n : Node} (h : n.type = .scalar) {v : UInt32} :
    n.asInteger = .ok v ↔ ∃ minus ds tail, Splits n.scalar.toList minus ds tail ∧
      FitsInt (signed minus (value ds)) ∧ v = UInt32.ofInt (signed minus (value ds)) := by
  rw [n.asInteger_scalar h]
  constructor
  · intro hv
    cases hs : stoi n.scalar with
    | error e => rw [hs] at hv; cases hv
    | ok i =>
      obtain ⟨hreads, hfits⟩ := stoi_eq_ok_iff.mp hs
      obtain ⟨minus, ds, tail, hl, rfl⟩ := readsInt_iff.mp hreads
      rw [hs] at hv
      exact ⟨minus, ds, tail, hl, hfits, (Except.ok.inj hv).symm⟩
  · rintro ⟨minus, ds, tail, hl, hfits, rfl⟩
    rw [stoi_eq_ok_iff.mpr ⟨readsInt_iff.mpr ⟨minus, ds, tail, hl, rfl⟩, hfits⟩]
    rfl

theorem FitsInt.lt {m : Nat} (h : FitsInt (m : Int)) : m < 2 ^ 31 := by
  rw [FitsInt] at h
  omega

theorem denotes_iff {s : String} {v : UInt32} :
    Denotes s v ↔ ∃ ds, Splits s.toList false ds [] ∧ value ds = v.toNat := by
  constructor
  · rintro ⟨ws, sign, ds, hs, hws, hsign, hds, hv⟩
    exact ⟨ds, ⟨ws, sign, by rw [hs, List.append_nil], hws, hsign, hds, by simp⟩, hv⟩
  · rintro ⟨ds, ⟨ws, sign, hs, hws, hsign, hds, -⟩, hv⟩
    exact ⟨ws, sign, ds, by rw [hs, List.append_nil], hws, hsign, hds, hv⟩

/-- The notation of a number is digits and nothing else. -/
theorem splits_toString {s : String} {m : Nat} (h : s = toString m) :
    Splits s.toList false (toString m).toList [] :=
  ⟨[], [], by rw [h]; simp, by simp, .none, (numeral_toString m).1, by simp⟩

section Scalar

variable {n : Node} (hn : n.type = .scalar)
include hn

/-- A number is read off its notation if it is an `int`. -/
theorem asInteger_of_toString {v : UInt32} (hv : n.scalar = toString v.toNat) :
    n.asInteger = .ok v ↔ v.toNat < 2 ^ 31 := by
  have hwhole := splits_toString hv
  have hvalue := (numeral_toString v.toNat).2
  rw [Node.asInteger_eq_ok_iff hn]
  constructor
  · rintro ⟨minus, ds, tail, hl, hfits, -⟩
    obtain ⟨rfl, rfl, -⟩ := hl.unique hwhole
    have hlt : value (toString v.toNat).toList < 2 ^ 31 := FitsInt.lt hfits
    rwa [hvalue] at hlt
  · intro hlt
    refine ⟨false, _, [], hwhole, ?_, UInt32.toNat.inj (Eq.symm ?_)⟩
    · rw [hvalue, signed, FitsInt]
      simp only [Bool.false_eq_true, if_false]
      omega
    · rw [hvalue]
      exact toNat_ofInt hlt

/-- A number that is read whole is what the text denotes. -/
theorem denotes_of_asInteger (hpart : ¬ ReadsPart n.scalar) {v : UInt32}
    (hv : n.asInteger = .ok v) : Denotes n.scalar v := by
  obtain ⟨minus, ds, tail, hl, hfits, rfl⟩ := (Node.asInteger_eq_ok_iff hn).mp hv
  have hwhole : minus = false ∧ tail = [] := by
    by_contra hno
    refine hpart ⟨minus, ds, tail, hl, hfits, ?_⟩
    cases minus
    · exact Or.inr fun htail ↦ hno ⟨rfl, htail⟩
    · exact Or.inl rfl
  obtain ⟨rfl, rfl⟩ := hwhole
  exact denotes_iff.mpr ⟨ds, hl, (toNat_ofInt (FitsInt.lt hfits)).symm⟩

end Scalar

/-- **When `as_integer` is the inverse of decimal notation**: when the text is neither a number
beyond the range of `int` nor a number that is read with something before or after it. -/
theorem asInteger_exact_iff (n : Node) (hn : n.type = .scalar) :
    ExactInteger n ↔ ¬ UpperHalf n.scalar ∧ ¬ ReadsPart n.scalar := by
  constructor
  · intro h
    refine ⟨?_, ?_⟩
    · rintro ⟨m, hlow, hhigh, hm⟩
      have hnat : (UInt32.ofNat m).toNat = m := by
        rw [UInt32.toNat_ofNat']
        exact Nat.mod_eq_of_lt hhigh
      have hv : n.scalar = toString (UInt32.ofNat m).toNat := by rw [hnat, hm]
      have hlt := (asInteger_of_toString hn hv).mp (h.reads _ hv)
      omega
    · rintro ⟨minus, ds, tail, hl, hfits, hpart⟩
      have hread := (Node.asInteger_eq_ok_iff hn).mpr ⟨minus, ds, tail, hl, hfits, rfl⟩
      obtain ⟨ds', hwhole, -⟩ := denotes_iff.mp (h.denotes _ hread)
      obtain ⟨rfl, -, rfl⟩ := hl.unique hwhole
      simp at hpart
  · rintro ⟨hupper, hpart⟩
    refine ⟨fun v hv ↦ ?_, fun v ↦ denotes_of_asInteger hn hpart, fun hno ↦ ?_⟩
    · refine (asInteger_of_toString hn hv).mpr ?_
      by_contra hbig
      exact hupper ⟨v.toNat, Nat.not_lt.mp hbig, v.toNat_lt, hv⟩
    · cases hr : n.asInteger with
      | error e => exact ⟨e, rfl⟩
      | ok v => exact absurd (denotes_of_asInteger hn hpart hr) (hno v)

/-- A scalar node. -/
def scalarNode (s : String) : Node := (Node.ofType .scalar).setScalar s

/-- The largest `uint32_t` is rejected, a negative number is converted, and what follows the digits
is ignored. -/
theorem not_asInteger_exact :
    (scalarNode "4294967295").asInteger = .error (outOfRange "stoi") ∧
      (scalarNode "-1").asInteger = .ok 4294967295 ∧
      (scalarNode "12abc").asInteger = .ok 12 ∧
      ¬ ∀ n : Node, n.type = .scalar → ExactInteger n := by
  have hmax : (scalarNode "4294967295").asInteger = .error (outOfRange "stoi") := by decide
  refine ⟨hmax, by decide, by decide, fun h ↦ ?_⟩
  have hread := (h (scalarNode "4294967295") rfl).reads 4294967295 rfl
  rw [hmax] at hread
  cases hread

theorem asInteger_exact_sample : ExactInteger (scalarNode " +0080") := by
  have hspace : ∀ c ∈ [' '], isSpace c = true := fun c hc ↦ List.mem_singleton.mp hc ▸ rfl
  have hwhole : Splits " +0080".toList false "0080".toList [] :=
    ⟨[' '], ['+'], rfl, hspace, .plus, by decide, by simp⟩
  refine (asInteger_exact_iff (scalarNode " +0080") rfl).mpr ⟨?_, ?_⟩
  · rintro ⟨m, -, -, hm⟩
    have hdigit := (numeral_toString m).1.2 ' ' (hm ▸ by decide)
    simp at hdigit
  · rintro ⟨minus, ds, tail, hl, -, hpart⟩
    obtain ⟨rfl, -, rfl⟩ := hl.unique hwhole
    simp at hpart

end Yaml
end XaMain
