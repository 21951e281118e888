import XaMain.Exception
import XaMain.Lib.CInt
import XaMain.Lib.Comp

/-!
# Addresses

`options::get_address_port_string` renders an address with its netmask as a prefix length.  It finds
the length by trying out all masks, from that of a host on, and computes each with a shift of an
`int`.  The last masks cannot be computed like that, so the search must succeed before it gets
there: `getAddressPortString_renders_iff` says when it does.
-/

set_option autoImplicit false

namespace XaMain
namespace Options

/-! ## The source -/

/-- `std::transform(s.begin(), s.end(), s.begin(), ::tolower)`, in the C locale. -/
def tolower (s : String) : String := String.ofList (s.toList.map Char.toLower)

/-- `0xFFFFFFFF - ((1 << n) - 1)` -/
def maskOf (n : Nat) : Option UInt32 := do
  return 0xFFFFFFFF - UInt32.ofInt (← CInt.sub (← CInt.shl 1 n) 1)

/-- `snprintf` with the format `%d.%d.%d.%d` and the four bytes of a mask. -/
def maskstr (mask : UInt32) : String :=
  toString ((mask >>> 24) &&& 0xFF).toNat ++ "." ++ toString ((mask >>> 16) &&& 0xFF).toNat ++ "."
    ++ toString ((mask >>> 8) &&& 0xFF).toNat ++ "." ++ toString ((mask >>> 0) &&& 0xFF).toNat

/-- A call that writes to the stream `ss`. -/
abbrev Printer := Comp String Exception

/-- `ss << s` -/
def put (s : String) : Printer Unit := Comp.modify (· ++ s)

/-- The loop over `n`, which returns the `n` it ends with.  It tests the condition 34 times at
most. -/
def netmaskLoop (netmask : String) : Nat → Nat → Printer Nat
  | 0, _ => Comp.exhausted
  | fuel + 1, n =>
    if n ≤ 32 then do
      let mask ← Comp.ofOption (maskOf n)
      if maskstr mask = netmask then
        if n ≠ 0 then
          put ("/" ++ toString (32 - n))
          return n
        else
          netmaskLoop netmask fuel (n + 1)
      else
        netmaskLoop netmask fuel (n + 1)
    else
      return n

/-- The port, and then the text that was written. -/
def putPort (port : String) : Printer String := do
  if port ≠ "any" then
    put (":" ++ port)
  Comp.gets id

/-- The netmask, and what is returned after it. -/
def putNetmask (netmask port : String) : Printer String :=
  if netmask ≠ "any" then do
    let n ← netmaskLoop netmask 34 0
    if n > 32 then
      return ""
    else
      putPort port
  else
    putPort port

/-- What is written and returned, of arguments in lower case. -/
def putAddress (ip netmask port : String) : Printer String := do
  if ip ≠ "any" then
    put ip
  putNetmask netmask port

/-- `options::get_address_port_string` -/
def getAddressPortString (ip netmask port : String) : Outcome Exception String :=
  (putAddress (tolower ip) (tolower netmask) (tolower port) "").1

/-! ## What should be rendered -/

/-- The netmask of a prefix length. -/
def netmaskOf (p : Nat) : Nat := 2 ^ 32 - 2 ^ (32 - p)

/-- A 32-bit number in dotted-decimal notation. -/
def dottedQuad (a : Nat) : String :=
  toString (a / 2 ^ 24 % 2 ^ 8) ++ "." ++ toString (a / 2 ^ 16 % 2 ^ 8) ++ "."
    ++ toString (a / 2 ^ 8 % 2 ^ 8) ++ "." ++ toString (a % 2 ^ 8)

/-- A part of the address, unless it is absent. -/
def present (before s : String) : String := if tolower s = "any" then "" else before ++ tolower s

/-- `r` is the rendering of the address. -/
structure RendersAddress (ip netmask port : String) (r : Outcome Exception String) : Prop where
  /-- With a netmask, the prefix length of anything but a host. -/
  mask : ∀ p ≤ 32, tolower netmask = dottedQuad (netmaskOf p) → r = .returned
    (present "" ip ++ (if p < 32 then "/" ++ toString p else "") ++ present ":" port)
  /-- With no netmask, no prefix length. -/
  any : tolower netmask = "any" → r = .returned (present "" ip ++ present ":" port)
  /-- With anything else, nothing. -/
  other : tolower netmask ≠ "any" → (∀ p ≤ 32, tolower netmask ≠ dottedQuad (netmaskOf p)) →
    r = .returned ""

/-! ## The masks -/

theorem maskstr_eq (mask : UInt32) : maskstr mask = dottedQuad mask.toNat := by
  have hbyte : ∀ x : UInt32, (x &&& 0xFF).toNat = x.toNat % 2 ^ 8 := fun x ↦ by
    rw [UInt32.toNat_and]
    exact Nat.and_two_pow_sub_one_eq_mod x.toNat 8
  have hshift : ∀ k : UInt32, k.toNat < 32 → (mask >>> k).toNat = mask.toNat / 2 ^ k.toNat :=
    fun k hk ↦ by
      rw [UInt32.toNat_shiftRight, Nat.mod_eq_of_lt hk, Nat.shiftRight_eq_div_pow]
  rw [maskstr, hbyte, hbyte, hbyte, hbyte, hshift 24 (by decide), hshift 16 (by decide),
    hshift 8 (by decide), hshift 0 (by decide), UInt32.toNat_zero, Nat.pow_zero, Nat.div_one]
  rfl

/-- The notation determines the number. -/
theorem dottedQuad_injective {a b : Nat} (ha : a < 2 ^ 32) (hb : b < 2 ^ 32)
    (h : dottedQuad a = dottedQuad b) : a = b := by
  have hlist := congrArg String.toList h
  simp only [dottedQuad, String.toList_append, List.append_assoc] at hlist
  have hdot : ∀ tail : List Char, ∀ c ∈ (".".toList ++ tail).head?, c.isDigit = false := by
    rintro tail c ⟨⟩
    rfl
  obtain ⟨h₁, hlist⟩ := Decimal.toString_append_inj (hdot _) (hdot _) hlist
  obtain ⟨h₂, hlist⟩ := Decimal.toString_append_inj (hdot _) (hdot _)
    (List.append_cancel_left hlist)
  obtain ⟨h₃, hlist⟩ := Decimal.toString_append_inj (hdot _) (hdot _)
    (List.append_cancel_left hlist)
  have hlast : (toString (a % 2 ^ 8)).toList ++ [] = (toString (b % 2 ^ 8)).toList ++ [] := by
    rw [List.append_cancel_left hlist]
  obtain ⟨h₄, -⟩ := Decimal.toString_append_inj (by simp) (by simp) hlast
  omega

/-- Different prefix lengths have different netmasks. -/
theorem dottedQuad_netmaskOf_inj {p q : Nat} (hp : p ≤ 32) (hq : q ≤ 32)
    (h : dottedQuad (netmaskOf p) = dottedQuad (netmaskOf q)) : p = q := by
  have hlt : ∀ k, netmaskOf k < 2 ^ 32 := fun k ↦
    Nat.sub_lt (by decide) (Nat.two_pow_pos (32 - k))
  have hle : ∀ k, 2 ^ (32 - k) ≤ 2 ^ 32 := fun k ↦ Nat.pow_le_pow_right (by decide) (by omega)
  have heq := dottedQuad_injective (hlt p) (hlt q) h
  have hpow : 2 ^ (32 - p) = 2 ^ (32 - q) := by
    have hp' := hle p
    have hq' := hle q
    simp only [netmaskOf] at heq
    omega
  have hexp := Nat.pow_right_injective (le_refl 2) hpow
  omega

/-- A mask that can be computed is the one of the prefix length `32 - n`. -/
theorem maskOf_eq {n : Nat} (h : n < 31) :
    ∃ mask, maskOf n = some mask ∧ maskstr mask = dottedQuad (netmaskOf (32 - n)) := by
  have hpow : 2 ^ n ≤ 2 ^ 30 := Nat.pow_le_pow_right (by decide) (by omega)
  have hpos : 0 < 2 ^ n := Nat.two_pow_pos n
  have hcast : (2 : Int) ^ n - 1 = ((2 ^ n - 1 : Nat) : Int) := by
    rw [Int.natCast_sub hpos]
    simp
  have hsub : CInt.sub (2 ^ n) 1 = some ((2 ^ n - 1 : Nat) : Int) := by
    rw [CInt.sub, hcast, if_pos (by rw [Decimal.FitsInt]; omega)]
  refine ⟨0xFFFFFFFF - UInt32.ofInt ((2 ^ n - 1 : Nat) : Int), ?_, ?_⟩
  · rw [maskOf, CInt.shl_one h]
    show (CInt.sub (2 ^ n) 1 >>= _) = _
    rw [hsub]
    rfl
  · have hnat : (UInt32.ofInt ((2 ^ n - 1 : Nat) : Int)).toNat = 2 ^ n - 1 :=
      toNat_ofInt (by omega)
    have hmask : (0xFFFFFFFF - UInt32.ofInt ((2 ^ n - 1 : Nat) : Int)).toNat
        = netmaskOf (32 - n) := by
      rw [UInt32.toNat_sub_of_le, hnat, netmaskOf, Nat.sub_sub_self (by omega)]
      · show 4294967295 - (2 ^ n - 1) = _
        omega
      · rw [UInt32.le_iff_toNat_le, hnat]
        show 2 ^ n - 1 ≤ 4294967295
        omega
    rw [maskstr_eq, hmask]

/-- The first mask that cannot be computed: the shift gives the least `int`, and there is none that
is one less. -/
theorem maskOf_overflow : maskOf 31 = none := by decide

/-! ## The search -/

section Search

variable {netmask : String} {fuel n : Nat} {ss : String}

/-- The mask is computed and does not end the search. -/
theorem netmaskLoop_skip (hn : n < 31)
    (h : netmask = dottedQuad (netmaskOf (32 - n)) → n = 0) :
    netmaskLoop netmask (fuel + 1) n ss = netmaskLoop netmask fuel (n + 1) ss := by
  obtain ⟨mask, hmask, hstr⟩ := maskOf_eq hn
  rw [netmaskLoop, if_pos (by omega), hmask, Comp.ofOption, Comp.bind_returned rfl, hstr]
  split
  · next heq => rw [if_neg (not_not_intro (h heq.symm))]
  · rfl

theorem netmaskLoop_found (hn : n < 31) (hzero : n ≠ 0)
    (h : netmask = dottedQuad (netmaskOf (32 - n))) :
    netmaskLoop netmask (fuel + 1) n ss
      = (.returned n, ss ++ ("/" ++ toString (32 - n))) := by
  obtain ⟨mask, hmask, hstr⟩ := maskOf_eq hn
  rw [netmaskLoop, if_pos (by omega), hmask, Comp.ofOption, Comp.bind_returned rfl, hstr,
    if_pos h.symm, if_pos hzero]
  rfl

theorem netmaskLoop_overflow :
    netmaskLoop netmask (fuel + 1) 31 ss = (.undefined, ss) := by
  rw [netmaskLoop, if_pos (by decide), maskOf_overflow]
  rfl

/-- The search gets to the mask `m` if none before it ends it. -/
theorem netmaskLoop_reaches {m : Nat} (hm : m ≤ 31)
    (h : ∀ n < m, netmask = dottedQuad (netmaskOf (32 - n)) → n = 0) :
    netmaskLoop netmask 34 0 ss = netmaskLoop netmask (34 - m) m ss := by
  induction m with
  | zero => rfl
  | succ m ih =>
    have hfuel : 34 - m = (34 - (m + 1)) + 1 := by omega
    rw [ih (by omega) fun n hn ↦ h n (by omega), hfuel,
      netmaskLoop_skip (by omega) (h m (by omega))]

/-- The netmask of a prefix length that can be computed is found. -/
theorem netmaskLoop_prefixLength {p : Nat} (hlow : 2 ≤ p) (hhigh : p ≤ 31) :
    netmaskLoop (dottedQuad (netmaskOf p)) 34 0 ss
      = (.returned (32 - p), ss ++ ("/" ++ toString p)) := by
  have hskip : ∀ n < 32 - p,
      dottedQuad (netmaskOf p) = dottedQuad (netmaskOf (32 - n)) → n = 0 := by
    intro n hn heq
    have hpn : p = 32 - n := dottedQuad_netmaskOf_inj (by omega) (by omega) heq
    omega
  have hback : 32 - (32 - p) = p := by omega
  have hfuel : 34 - (32 - p) = (1 + p) + 1 := by omega
  rw [netmaskLoop_reaches (by omega) hskip, hfuel,
    netmaskLoop_found (by omega) (by omega) (by rw [hback]), hback]

/-- Without such a netmask the search gets to a mask that cannot be computed. -/
theorem netmaskLoop_undefined
    (h : ∀ p, 2 ≤ p → p ≤ 31 → netmask ≠ dottedQuad (netmaskOf p)) :
    netmaskLoop netmask 34 0 ss = (.undefined, ss) := by
  have hskip : ∀ n < 31, netmask = dottedQuad (netmaskOf (32 - n)) → n = 0 := by
    intro n hn heq
    by_contra hzero
    exact h (32 - n) (by omega) (by omega) heq
  rw [netmaskLoop_reaches (le_refl 31) hskip]
  exact netmaskLoop_overflow

end Search

/-! ## What is rendered -/

theorem putPort_apply (port ss : String) :
    putPort (tolower port) ss
      = (.returned (ss ++ present ":" port), ss ++ present ":" port) := by
  rw [putPort, present]
  by_cases h : tolower port = "any"
  · rw [if_neg (not_not_intro h), if_pos h, String.append_empty]
    rfl
  · rw [if_pos h, if_neg h]
    rfl

/-- The address is written first. -/
theorem getAddressPortString_eq (ip netmask port : String) :
    getAddressPortString ip netmask port
      = (putNetmask (tolower netmask) (tolower port) (present "" ip)).1 := by
  rw [getAddressPortString, putAddress, present]
  by_cases h : tolower ip = "any"
  · rw [if_neg (not_not_intro h), if_pos h]
  · rw [if_pos h, if_neg h]
    rfl

example : getAddressPortString "ANY" "255.255.255.0" "80" = .returned "/24:80" := by decide

theorem getAddressPortString_any {ip netmask port : String} (h : tolower netmask = "any") :
    getAddressPortString ip netmask port = .returned (present "" ip ++ present ":" port) := by
  rw [getAddressPortString_eq, putNetmask, if_neg (not_not_intro h), putPort_apply]

/-- A netmask is not absent. -/
theorem dottedQuad_ne_any (a : Nat) : dottedQuad a ≠ "any" := by
  intro h
  have hlist := congrArg String.toList h
  simp only [dottedQuad, String.toList_append, List.append_assoc] at hlist
  have hmem : '.' ∈ "any".toList := by
    rw [← hlist]
    simp
  exact absurd hmem (by decide)

theorem getAddressPortString_prefixLength {ip netmask port : String} {p : Nat} (hlow : 2 ≤ p)
    (hhigh : p ≤ 31) (h : tolower netmask = dottedQuad (netmaskOf p)) :
    getAddressPortString ip netmask port
      = .returned (present "" ip ++ ("/" ++ toString p) ++ present ":" port) := by
  rw [getAddressPortString_eq, putNetmask, h, if_pos (dottedQuad_ne_any _),
    Comp.bind_returned (netmaskLoop_prefixLength hlow hhigh), if_neg (by omega), putPort_apply]

theorem getAddressPortString_undefined {ip netmask port : String} (hany : tolower netmask ≠ "any")
    (h : ∀ p, 2 ≤ p → p ≤ 31 → tolower netmask ≠ dottedQuad (netmaskOf p)) :
    getAddressPortString ip netmask port = .undefined := by
  rw [getAddressPortString_eq, putNetmask, if_pos hany, Comp.bind_apply, netmaskLoop_undefined h]

/-- **When an address is rendered**: when there is no netmask, or that of a prefix length from 2 to
31.  The search for any other reaches a mask that it cannot compute: for a host because its mask,
the first one, does not end the search. -/
theorem getAddressPortString_renders_iff (ip netmask port : String) :
    RendersAddress ip netmask port (getAddressPortString ip netmask port) ↔
      tolower netmask = "any" ∨
        ∃ p, 2 ≤ p ∧ p ≤ 31 ∧ tolower netmask = dottedQuad (netmaskOf p) := by
  constructor
  · intro h
    by_contra hno
    have hany : tolower netmask ≠ "any" := fun heq ↦ hno (Or.inl heq)
    have hundefined : getAddressPortString ip netmask port = .undefined :=
      getAddressPortString_undefined hany fun p hlow hhigh heq ↦
        hno (Or.inr ⟨p, hlow, hhigh, heq⟩)
    rw [hundefined] at h
    by_cases hmask : ∃ p ≤ 32, tolower netmask = dottedQuad (netmaskOf p)
    · obtain ⟨p, hp, heq⟩ := hmask
      cases h.mask p hp heq
    · cases h.other hany fun p hp heq ↦ hmask ⟨p, hp, heq⟩
  · rintro (hany | ⟨p, hlow, hhigh, heq⟩)
    · refine ⟨fun p _ hmask ↦ ?_, fun _ ↦ getAddressPortString_any hany, fun hne ↦ absurd hany hne⟩
      exact absurd (hmask.symm.trans hany) (dottedQuad_ne_any _)
    · refine ⟨fun q hq hmask ↦ ?_, fun hany ↦ ?_, fun _ hno ↦ absurd heq (hno p (by omega))⟩
      · obtain rfl : p = q := dottedQuad_netmaskOf_inj (by omega) hq (heq.symm.trans hmask)
        rw [getAddressPortString_prefixLength hlow hhigh heq, if_pos (by omega)]
      · exact absurd (heq.symm.trans hany) (dottedQuad_ne_any _)

/-- The address of a host: its mask is the first one, and the search goes on after it. -/
theorem not_renders_host :
    getAddressPortString "10.0.0.1" "255.255.255.255" "80" = .undefined ∧
      ¬ ∀ ip netmask port : String,
        RendersAddress ip netmask port (getAddressPortString ip netmask port) := by
  have hhost : tolower "255.255.255.255" = dottedQuad (netmaskOf 32) := by decide
  have hundefined : getAddressPortString "10.0.0.1" "255.255.255.255" "80" = .undefined := by
    refine getAddressPortString_undefined (by decide) fun p hlow hhigh heq ↦ ?_
    have hp : 32 = p := dottedQuad_netmaskOf_inj (le_refl 32) (by omega) (hhost.symm.trans heq)
    omega
  refine ⟨hundefined, fun h ↦ ?_⟩
  have hmask := (h "10.0.0.1" "255.255.255.255" "80").mask 32 (le_refl 32) hhost
  rw [hundefined] at hmask
  cases hmask

end Options
end XaMain
