import XaMain.Main.Options
import XaMain.Mariadb.UriGrammar

/-!
# Port numbers

A port number enters the program at two places, `control.listen-port` of the configuration file and
the port of a database URI.  At either it should be a numeral that denotes a port, 1 to 65535, and
be stored as it was written: `ListenPortKept` and `UriPortKept`.  Neither place keeps to this for
all texts, and `portsKept_iff` says for which they do.
-/

set_option autoImplicit false

namespace XaMain
namespace Options

open Yaml Validation Mariadb

/-- The text is a numeral, and it denotes a port. -/
def IsPort (text : String) : Prop :=
  Decimal.Numeral text.toList ∧ 1 ≤ Decimal.value text.toList ∧ Decimal.value text.toList ≤ 65535

instance (text : String) : Decidable (IsPort text) := inferInstanceAs (Decidable (_ ∧ _ ∧ _))

/-- If the control section accepts the port `text`, then it is one, and it is the one stored. -/
def ListenPortKept (text : String) (s : Settings) : Prop :=
  ∀ value : Node, value.type = .scalar → value.scalar = text →
    (controlHandler "listen-port" value s).1 = .ok true → IsPort text ∧
      (controlHandler "listen-port" value s).2.2.controlListenPort.toNat
        = Decimal.value text.toList

/-- If a URI with the port `p` is accepted, then `p` is a port, and it is the one stored. -/
def UriPortKept (resolver : Resolver) (u : UriParts) (params : DbParams) : Prop :=
  ∀ p ∈ u.port, ∀ params', parseDatabaseUri resolver u.render params = (.returned true, params') →
    IsPort p ∧ params'.dbPort.toNat = Decimal.value p.toList

/-- **The control section keeps a port** unless `std::stoi` reads a number off a text that is not
one. -/
theorem listenPortKept_iff (text : String) (s : Settings) :
    ListenPortKept text s ↔
      IsPort text ∨ ¬ ∃ v, Decimal.ReadsInt text.toList v ∧ Decimal.FitsInt v := by
  constructor
  · intro h
    by_cases hreads : ∃ v, Decimal.ReadsInt text.toList v ∧ Decimal.FitsInt v
    · obtain ⟨v, hv⟩ := hreads
      have htype : ((Node.ofType .scalar).setScalar text).type = .scalar := rfl
      have hrun := controlHandler_listenPort htype s (stoi_eq_ok_iff.mpr hv)
      exact Or.inl (h _ rfl rfl (by rw [hrun])).1
    · exact Or.inr hreads
  · rintro (hport | hreads) value htype rfl haccepted
    · obtain ⟨hnumeral, hge, hle⟩ := hport
      have hstoi : stoi value.scalar = .ok (Decimal.value value.scalar.toList) :=
        stoi_eq_ok_iff.mpr ⟨hnumeral.readsInt, by rw [Decimal.FitsInt]; omega⟩
      refine ⟨⟨hnumeral, hge, hle⟩, ?_⟩
      rw [controlHandler_listenPort htype s hstoi]
      show (UInt32.ofInt _).toUInt16.toNat = _
      rw [UInt32.toNat_toUInt16, toNat_ofInt (by omega)]
      omega
    · cases hstoi : stoi value.scalar with
      | ok v => exact absurd ⟨v, stoi_eq_ok_iff.mp hstoi⟩ hreads
      | error e =>
        rw [controlHandler_listenPort_error htype s hstoi] at haccepted
        simp at haccepted

/-- **A URI keeps its port** unless the port is 0. -/
theorem uriPortKept_iff (resolver : Resolver) (u : UriParts) (params : DbParams) :
    UriPortKept resolver u params ↔
      ¬ ∃ p ∈ u.port, Decimal.value p.toList = 0 ∧ validateIpv4Address resolver u.host = true := by
  constructor
  · rintro h ⟨p, hp, hzero, hhost⟩
    have hacc : u.Accepted resolver := by
      refine ⟨hhost, ?_⟩
      rw [Option.mem_def.mp hp]
      show Decimal.value p.toList ≤ 65535
      omega
    obtain ⟨params', hrun, -⟩ := parseDatabaseUri_accepted resolver params u hacc
    obtain ⟨-, hge, -⟩ := (h p hp params' hrun).1
    omega
  · intro h p hp params' hrun
    by_cases hacc : u.Accepted resolver
    · obtain ⟨params'', hrun', -, -, -, -, hport, -⟩ :=
        parseDatabaseUri_accepted resolver params u hacc
      obtain ⟨hhost, hle⟩ := hacc
      rw [Option.mem_def.mp hp] at hle
      have hle : Decimal.value p.toList ≤ 65535 := hle
      have hne : Decimal.value p.toList ≠ 0 := fun h0 ↦ h ⟨p, hp, h0, hhost⟩
      rw [hrun, Prod.mk.injEq] at hrun'
      rw [UriParts.portNumber, Option.mem_def.mp hp] at hport
      rw [hrun'.2]
      exact ⟨⟨u.port_word p hp, by omega, hle⟩, hport⟩
    · obtain ⟨params'', hrun' | ⟨-, hrun'⟩⟩ := parseDatabaseUri_refused resolver params u hacc
      all_goals rw [hrun] at hrun'; simp at hrun'

/-- **When the ports that are accepted are the ports that were written**: in the control section, if
the text denotes a port or `std::stoi` rejects it; in a URI, if the port is not 0 or the host is
rejected. -/
theorem portsKept_iff (text : String) (s : Settings) (resolver : Resolver) (u : UriParts)
    (params : DbParams) :
    (ListenPortKept text s ↔
      IsPort text ∨ ¬ ∃ v, Decimal.ReadsInt text.toList v ∧ Decimal.FitsInt v) ∧
    (UriPortKept resolver u params ↔
      ¬ ∃ p ∈ u.port, Decimal.value p.toList = 0 ∧ validateIpv4Address resolver u.host = true) :=
  ⟨listenPortKept_iff text s, uriPortKept_iff resolver u params⟩

/-- The port 70000 is accepted in the control section, and 4464 is stored. -/
theorem not_listenPortKept : (controlHandler "listen-port"
      ((Node.ofType .scalar).setScalar "70000") {}).1 = .ok true ∧
    (controlHandler "listen-port"
      ((Node.ofType .scalar).setScalar "70000") {}).2.2.controlListenPort = 4464 ∧
    ¬ ∀ (text : String) (s : Settings), ListenPortKept text s := by
  have hstoi : stoi ((Node.ofType .scalar).setScalar "70000").scalar = .ok 70000 := by decide
  have htype : ((Node.ofType .scalar).setScalar "70000").type = .scalar := rfl
  have hrun := controlHandler_listenPort htype {} hstoi
  refine ⟨by rw [hrun], by rw [hrun]; decide, fun h ↦ ?_⟩
  have hport := (h "70000" {} _ rfl rfl (by rw [hrun])).1
  exact absurd hport (by decide)

end Options
end XaMain
