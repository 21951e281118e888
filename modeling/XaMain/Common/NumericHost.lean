import XaMain.Common.Validation
import XaMain.Lib.Inet

/-!
# Numeric host names

A host name over the digits, `-`, `_` and `.` is not looked up: `validate_ipv4_address` asks whether
it has the shape of four numerals with dots between them, and whether `inet_aton` reads it.  The
shape is a decimal one, but `inet_aton` reads a numeral with a leading `0` in octal.

`validateIpv4Address_dotted_iff` says when this comes to a check for dotted-decimal addresses.
-/

set_option autoImplicit false

namespace XaMain
namespace Validation

open Regex Decimal

/-! ## Dotted addresses -/

/-- Four numerals of one to three digits. -/
structure DottedQuad where
  parts : List (List Char)
  four : parts.length = 4
  numerals : ∀ p ∈ parts, Numeral p ∧ p.length ≤ 3

namespace DottedQuad

variable (q : DottedQuad)

/-- The numerals with dots between them. -/
def text : String := String.ofList (['.'].intercalate q.parts)

/-- What the numerals denote, in decimal. -/
def values : List Nat := q.parts.map value

/-- Each denotes a byte. -/
def InRange : Prop := ∀ p ∈ q.parts, value p ≤ 255

/-- The address with these bytes. -/
def address : Nat := Inet.ofBytes q.values

/-- Some numeral starts with a `0` and denotes 8 or more. -/
def HasOctal : Prop := ∃ p ∈ q.parts, p.head? = some '0' ∧ 8 ≤ value p

theorem toList_text : q.text.toList = ['.'].intercalate q.parts := String.toList_ofList

theorem parts_ne_nil : q.parts ≠ [] := by
  intro h
  have hfour := q.four
  rw [h] at hfour
  simp at hfour

/-- The numerals can be read back off the text. -/
theorem splitOn_text : q.text.toList.splitOn '.' = q.parts := by
  rw [toList_text]
  refine List.splitOn_intercalate '.' (fun p hp hdot ↦ ?_) q.parts_ne_nil
  have hdigit := (q.numerals p hp).1.2 '.' hdot
  exact absurd hdigit (by decide)

theorem text_injective {q q' : DottedQuad} (h : q.text = q'.text) : q = q' := by
  have hparts : q.parts = q'.parts := by rw [← q.splitOn_text, h, q'.splitOn_text]
  obtain ⟨parts, _, _⟩ := q
  obtain ⟨parts', _, _⟩ := q'
  cases hparts
  rfl

theorem text_ne_empty : q.text ≠ "" := by
  intro h
  have hsplit := q.splitOn_text
  have hfour := q.four
  rw [h, show "".toList = [] from rfl, List.splitOn_nil] at hsplit
  rw [← hsplit] at hfour
  simp at hfour

theorem length_values : q.values.length = 4 := by rw [values, List.length_map, q.four]

end DottedQuad

/-! ## The two regular expressions -/

theorem numericHostRegex_isSome_iff {s : String} :
    (numericHostRegex.regexMatch s.toList).isSome = true ↔ Word isNumericHostChar s.toList := by
  rw [regexMatch_isSome_iff, numericHostRegex]
  exact ⟨fun ⟨_, h⟩ ↦ (matches_group_many.mp h).1, fun h ↦ ⟨_, matches_group_many.mpr ⟨h, rfl⟩⟩⟩

/-- `\d{1,3}` -/
theorem matches_part {b w t : List Char} {g : Groups} :
    (between (.cls Char.isDigit) 1 3).Matches b w t g ↔ (Numeral w ∧ w.length ≤ 3) ∧ g = [] := by
  rw [matches_between_cls (by decide), Nat.one_le_iff_ne_zero, Numeral, Ne,
    List.length_eq_zero_iff]
  exact ⟨fun ⟨⟨hne, hlen⟩, hw, hg⟩ ↦ ⟨⟨⟨hne, hw⟩, hlen⟩, hg⟩,
    fun ⟨⟨⟨hne, hw⟩, hlen⟩, hg⟩ ↦ ⟨⟨hne, hlen⟩, hw, hg⟩⟩

/-- **The shape is that of four numerals.** -/
theorem dottedQuadRegex_isSome_iff {s : String} :
    (dottedQuadRegex.regexMatch s.toList).isSome = true ↔ ∃ q : DottedQuad, q.text = s := by
  rw [regexMatch_isSome_iff, dottedQuadRegex]
  constructor
  · rintro ⟨g, h⟩
    obtain ⟨p₁, _, _, _, hs₁, -, hp₁, h⟩ := matches_cat_cons.mp h
    obtain ⟨_, _, _, _, hs₂, -, hdot₁, h⟩ := matches_cat_cons.mp h
    obtain ⟨p₂, _, _, _, hs₃, -, hp₂, h⟩ := matches_cat_cons.mp h
    obtain ⟨_, _, _, _, hs₄, -, hdot₂, h⟩ := matches_cat_cons.mp h
    obtain ⟨p₃, _, _, _, hs₅, -, hp₃, h⟩ := matches_cat_cons.mp h
    obtain ⟨_, _, _, _, hs₆, -, hdot₃, h⟩ := matches_cat_cons.mp h
    obtain ⟨p₄, _, _, _, hs₇, -, hp₄, hnil⟩ := matches_cat_cons.mp h
    have hd₁ := (matches_lit.mp hdot₁).1
    have hd₂ := (matches_lit.mp hdot₂).1
    have hd₃ := (matches_lit.mp hdot₃).1
    have hn := (matches_cat_nil.mp hnil).1
    refine ⟨⟨[p₁, p₂, p₃, p₄], rfl, ?_⟩, String.toList_inj.mp ?_⟩
    · simp only [List.forall_mem_cons]
      exact ⟨(matches_part.mp hp₁).1, (matches_part.mp hp₂).1, (matches_part.mp hp₃).1,
        (matches_part.mp hp₄).1, by simp⟩
    · rw [DottedQuad.toList_text, hs₁, hs₂, hs₃, hs₄, hs₅, hs₆, hs₇, hd₁, hd₂, hd₃, hn]
      simp [List.intercalate]
  · rintro ⟨⟨parts, hfour, hnum⟩, rfl⟩
    obtain ⟨p₁, p₂, p₃, p₄, rfl⟩ := Inet.exists_four hfour
    simp only [List.forall_mem_cons] at hnum
    obtain ⟨hp₁, hp₂, hp₃, hp₄, -⟩ := hnum
    have h : (Regex.cat _).Matches [] _ [] _ :=
      .cons (matches_part.mpr ⟨hp₁, rfl⟩) <|
      .cons (matches_lit (l := ['.']).mpr ⟨rfl, rfl⟩) <|
      .cons (matches_part.mpr ⟨hp₂, rfl⟩) <|
      .cons (matches_lit (l := ['.']).mpr ⟨rfl, rfl⟩) <|
      .cons (matches_part.mpr ⟨hp₃, rfl⟩) <|
      .cons (matches_lit (l := ['.']).mpr ⟨rfl, rfl⟩) <|
      .cons (matches_part.mpr ⟨hp₄, rfl⟩) <|
      matches_cat_nil.mpr ⟨rfl, rfl⟩
    rw [DottedQuad.toList_text]
    exact ⟨_, by simpa [List.intercalate] using h⟩

/-! ## What is read

`inet_aton` reads four parts of one byte each.  What it reads of a numeral that starts with a `0` is
less than what the numeral denotes, unless that is below 8; but three digits that start with a `0`
denote a byte in any case. -/

theorem value_le_of_zero {p : List Char} (hp : Numeral p) (hlen : p.length ≤ 3)
    (hzero : p.head? = some '0') : value p ≤ 255 := by
  obtain ⟨c, l, rfl⟩ := List.exists_cons_of_ne_nil hp.1
  have hlt := value_lt fun x hx ↦ hp.2 x (List.mem_cons_of_mem _ hx)
  have hle : 10 ^ l.length ≤ 10 ^ 2 :=
    Nat.pow_le_pow_right (by decide) (Nat.le_of_succ_le_succ hlen)
  rw [Option.some.inj hzero, value_zero_cons]
  omega

namespace DottedQuad

variable {q : DottedQuad} {a : UInt32}

theorem inetAton_text : Inet.inetAton q.text = some a ↔
    ∃ ns, q.parts.map Inet.readPart = ns.map some ∧ (∀ n ∈ ns, n < 256) ∧
      a.toNat = Inet.ofBytes ns := by
  rw [Inet.inetAton, splitOn_text, Option.bind_eq_some_iff]
  refine exists_congr fun ns ↦ ?_
  rw [Inet.mapM_eq_some_iff]
  refine and_congr_right fun hns ↦ Inet.assemble_four ?_
  have hlen := congrArg List.length hns
  rw [List.length_map, List.length_map, q.four] at hlen
  exact hlen.symm

/-- What is read has only numerals for bytes. -/
theorem inRange_of_inetAton (h : Inet.inetAton q.text = some a) : q.InRange := by
  obtain ⟨ns, hns, hlt, -⟩ := inetAton_text.mp h
  intro p hp
  obtain ⟨hnum, hlen⟩ := q.numerals p hp
  by_cases hzero : p.head? = some '0'
  · exact value_le_of_zero hnum hlen hzero
  · have hread : some (value p) ∈ ns.map some := by
      rw [← hns, ← Inet.readPart_decimal hnum hzero]
      exact List.mem_map_of_mem hp
    obtain ⟨n, hn, hvalue⟩ := List.mem_map.mp hread
    have hn256 := hlt n hn
    rw [Option.some.inj hvalue] at hn256
    exact Nat.le_of_lt_succ hn256

theorem values_lt (h : q.InRange) : ∀ n ∈ q.values, n < 256 := by
  intro n hn
  obtain ⟨p, hp, rfl⟩ := List.mem_map.mp hn
  exact Nat.lt_succ_of_le (h p hp)

/-- All numerals are read as what they denote if none of them is an octal one. -/
theorem map_readPart_iff :
    q.parts.map Inet.readPart = q.values.map some ↔ ¬ q.HasOctal := by
  rw [values, List.map_map, List.map_inj_left, HasOctal, not_exists]
  refine forall_congr' fun p ↦ ?_
  rw [not_and]
  exact forall_congr' fun hp ↦ Inet.readPart_eq_iff (q.numerals p hp).1

theorem inetAton_of_not_octal (h : q.InRange) (hoctal : ¬ q.HasOctal) :
    ∃ a, Inet.inetAton q.text = some a ∧ a.toNat = q.address := by
  have haddress : (UInt32.ofNat q.address).toNat = q.address :=
    UInt32.toNat_ofNat_of_lt (Inet.ofBytes_lt q.length_values (values_lt h))
  exact ⟨.ofNat q.address,
    inetAton_text.mpr ⟨q.values, map_readPart_iff.mpr hoctal, values_lt h, haddress⟩, haddress⟩

/-- An address that is read right has no octal numeral. -/
theorem not_octal_of_inetAton (h : q.InRange) (ha : Inet.inetAton q.text = some a)
    (haddress : a.toNat = q.address) : ¬ q.HasOctal := by
  obtain ⟨ns, hns, hlt, hbytes⟩ := inetAton_text.mp ha
  have hlen : ns.length = 4 := by
    have hlength := congrArg List.length hns
    rw [List.length_map, List.length_map, q.four] at hlength
    exact hlength.symm
  have heq : ns = q.values :=
    Inet.ofBytes_injective hlen q.length_values hlt (values_lt h) (hbytes.symm.trans haddress)
  exact map_readPart_iff.mp (heq ▸ hns)

end DottedQuad

/-! ## The check -/

/-- **What a check for dotted-decimal addresses owes a numeric host name**: it accepts four
numerals that denote bytes, and an accepted one is then read as the address with these bytes. -/
structure ValidatesDotted (resolver : Resolver) (s : String) : Prop where
  accepts : validateIpv4Address resolver s = true ↔ ∃ q : DottedQuad, q.text = s ∧ q.InRange
  reads : validateIpv4Address resolver s = true → ∀ q : DottedQuad, q.text = s →
    ∃ a, resolver.inetAton s = some a ∧ a.toNat = q.address

section Check

variable (gethostbyname : String → Bool) {s : String}

theorem validateIpv4Address_empty (resolver : Resolver) :
    validateIpv4Address resolver "" = resolver.gethostbyname "" := by
  have hregex : ¬ (numericHostRegex.regexMatch "".toList).isSome = true := by
    rw [numericHostRegex_isSome_iff]
    exact fun h ↦ h.1 rfl
  rw [validateIpv4Address, if_neg hregex]

theorem validateIpv4Address_numeric (hs : Word isNumericHostChar s.toList) (resolver : Resolver) :
    validateIpv4Address resolver s = true ↔
      (∃ q : DottedQuad, q.text = s) ∧ ∃ a, resolver.inetAton s = some a := by
  rw [validateIpv4Address, if_pos (numericHostRegex_isSome_iff.mpr hs), Bool.and_eq_true,
    dottedQuadRegex_isSome_iff, Option.isSome_iff_exists]

/-- The empty name is not that of an address. -/
theorem validatesDotted_empty_iff :
    ValidatesDotted ⟨Inet.inetAton, gethostbyname⟩ "" ↔ ¬ gethostbyname "" = true := by
  have hnot : ¬ ∃ q : DottedQuad, q.text = "" ∧ q.InRange :=
    fun ⟨q, hq, _⟩ ↦ q.text_ne_empty hq
  have hcheck : validateIpv4Address ⟨Inet.inetAton, gethostbyname⟩ "" = gethostbyname "" :=
    validateIpv4Address_empty _
  constructor
  · intro h hfound
    exact hnot (h.accepts.mp (hcheck.trans hfound))
  · intro hfound
    rw [← hcheck] at hfound
    exact ⟨iff_of_false hfound hnot, fun h ↦ absurd h hfound⟩

theorem validatesDotted_numeric_iff (hs : Word isNumericHostChar s.toList) :
    ValidatesDotted ⟨Inet.inetAton, gethostbyname⟩ s ↔
      ¬ ∃ q : DottedQuad, q.text = s ∧ q.InRange ∧ q.HasOctal := by
  have hcheck := validateIpv4Address_numeric hs ⟨Inet.inetAton, gethostbyname⟩
  constructor
  · rintro h ⟨q, hq, hrange, hoctal⟩
    have haccepted := h.accepts.mpr ⟨q, hq, hrange⟩
    obtain ⟨a, ha, haddress⟩ := h.reads haccepted q hq
    rw [← hq] at ha
    exact DottedQuad.not_octal_of_inetAton hrange ha haddress hoctal
  · intro hoctal
    have hreads : ∀ q : DottedQuad, q.text = s → q.InRange →
        ∃ a, Inet.inetAton s = some a ∧ a.toNat = q.address := by
      intro q hq hrange
      rw [← hq]
      exact DottedQuad.inetAton_of_not_octal hrange fun h ↦ hoctal ⟨q, hq, hrange, h⟩
    have hinRange : validateIpv4Address ⟨Inet.inetAton, gethostbyname⟩ s = true →
        ∀ q : DottedQuad, q.text = s → q.InRange := by
      intro h q hq
      obtain ⟨-, a, ha⟩ := hcheck.mp h
      exact DottedQuad.inRange_of_inetAton (a := a) (hq ▸ ha)
    refine ⟨⟨fun h ↦ ?_, ?_⟩, fun h q hq ↦ hreads q hq (hinRange h q hq)⟩
    · obtain ⟨⟨q, hq⟩, -⟩ := hcheck.mp h
      exact ⟨q, hq, hinRange h q hq⟩
    · rintro ⟨q, hq, hrange⟩
      obtain ⟨a, ha, -⟩ := hreads q hq hrange
      exact hcheck.mpr ⟨⟨q, hq⟩, a, ha⟩

/-- **Numeric host names are validated as dotted-decimal addresses, but for octal numerals.**  The
check is right about a name unless it is that of four bytes, one of them written with a leading `0`
and denoting 8 or more.  The empty name is looked up, and is right if it is not found. -/
theorem validateIpv4Address_dotted_iff (hs : ∀ c ∈ s.toList, isNumericHostChar c = true) :
    ValidatesDotted ⟨Inet.inetAton, gethostbyname⟩ s ↔
      ¬ (s = "" ∧ gethostbyname s = true) ∧
        ¬ ∃ q : DottedQuad, q.text = s ∧ q.InRange ∧ q.HasOctal := by
  by_cases hempty : s = ""
  · subst hempty
    have hquad : ¬ ∃ q : DottedQuad, q.text = "" ∧ q.InRange ∧ q.HasOctal :=
      fun ⟨q, hq, _⟩ ↦ q.text_ne_empty hq
    rw [validatesDotted_empty_iff, and_iff_left hquad, and_iff_right rfl]
  · have hword : Word isNumericHostChar s.toList :=
      ⟨fun h ↦ hempty (String.toList_eq_nil_iff.mp h), hs⟩
    rw [validatesDotted_numeric_iff gethostbyname hword, and_iff_right fun h ↦ hempty h.1]

end Check

/-- `127.0.0.1` -/
def loopbackQuad : DottedQuad where
  parts := [['1', '2', '7'], ['0'], ['0'], ['1']]
  four := rfl
  numerals := by
    simp only [List.forall_mem_cons]
    exact ⟨by decide, by decide, by decide, by decide, by simp⟩

theorem loopbackQuad_not_octal : ¬ loopbackQuad.HasOctal := by
  rintro ⟨p, hp, hzero, hvalue⟩
  simp only [loopbackQuad, List.mem_cons, List.not_mem_nil, or_false] at hp
  rcases hp with rfl | rfl | rfl | rfl
  · exact absurd hzero (by decide)
  · exact absurd hvalue (by decide)
  · exact absurd hvalue (by decide)
  · exact absurd hzero (by decide)

theorem validateIpv4Address_dotted_loopback :
    ValidatesDotted ⟨Inet.inetAton, fun _ ↦ false⟩ "127.0.0.1" := by
  refine (validateIpv4Address_dotted_iff (fun _ ↦ false)
    (List.all_eq_true.mp (by decide))).mpr ⟨by simp, ?_⟩
  rintro ⟨q, hq, -, hoctal⟩
  have htext : loopbackQuad.text = "127.0.0.1" := by decide
  rw [DottedQuad.text_injective (hq.trans htext.symm)] at hoctal
  exact loopbackQuad_not_octal hoctal

/-- `010.0.0.1` -/
def octalQuad : DottedQuad where
  parts := [['0', '1', '0'], ['0'], ['0'], ['1']]
  four := rfl
  numerals := by
    simp only [List.forall_mem_cons]
    exact ⟨by decide, by decide, by decide, by decide, by simp⟩

/-- `010.0.0.1` is accepted, and read as `8.0.0.1`. -/
theorem not_validatesDotted_octal :
    ¬ ValidatesDotted ⟨Inet.inetAton, fun _ ↦ false⟩ "010.0.0.1" := by
  intro h
  have htext : octalQuad.text = "010.0.0.1" := by decide
  have hread : Inet.inetAton "010.0.0.1" = some 134217729 := by decide
  have hword : Word isNumericHostChar "010.0.0.1".toList :=
    ⟨by decide, List.all_eq_true.mp (by decide)⟩
  have haccepted : validateIpv4Address ⟨Inet.inetAton, fun _ ↦ false⟩ "010.0.0.1" = true :=
    (validateIpv4Address_numeric hword _).mpr ⟨⟨octalQuad, htext⟩, _, hread⟩
  obtain ⟨a, ha, haddress⟩ := h.reads haccepted octalQuad htext
  rw [← Option.some.inj (hread.symm.trans ha)] at haddress
  exact absurd haddress (by decide)

end Validation
end XaMain
