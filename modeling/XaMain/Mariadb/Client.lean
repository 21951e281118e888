import XaMain.Lib.Protocol
import XaMain.Mariadb.Uri

/-!
# The MySQL client and its protocol

What `pca::mariadb` does to a database handle is a sequence of calls of the client library.  A
program is a computation over the calls made so far, `Trace`, and whatever the outside answers, an
`Environment` says as a function of them: nothing is assumed about the answers.

The rules of the library are `handleProtocol`.  A successful `mysql_init` opens the handle and
`mysql_close` closes it, no other call may be made while it is not open, and a result set can be
freed once.
-/

set_option autoImplicit false

namespace XaMain
namespace Mariadb

open Validation

/-- A call of the client library, with the part of its answer that the program goes on from.  A
result set is known by its address. -/
inductive ClientCall where
  /-- `mysql_init` -/
  | init (ok : Bool)
  /-- `mysql_real_connect` -/
  | realConnect (params : DbParams) (ok : Bool)
  /-- `mysql_query` -/
  | query (stmt : String) (ok : Bool)
  /-- `mysql_affected_rows` -/
  | affectedRows (rows : UInt64)
  /-- `mysql_store_result` -/
  | storeResult (result : Option Nat)
  /-- `mysql_free_result` -/
  | freeResult (result : Nat)
  /-- `mysql_error` -/
  | error
  /-- `mysql_close` -/
  | close
  deriving DecidableEq

/-- The calls made so far, the oldest first. -/
abbrev Trace := List ClientCall

/-- What the outside answers after the calls made so far. -/
structure Environment where
  /-- Does `mysql_init` succeed? -/
  init : Trace → Bool
  /-- Does `mysql_real_connect` succeed? -/
  realConnect : Trace → DbParams → Bool
  /-- Does `mysql_query` succeed? -/
  query : Trace → String → Bool
  /-- What `mysql_affected_rows` returns. -/
  affectedRows : Trace → UInt64
  /-- What `mysql_store_result` returns. -/
  storeResult : Trace → Option Nat
  /-- What `mysql_error` returns. -/
  error : Trace → String
  /-- The resolver a host name in a URI is looked up with. -/
  resolver : Trace → Resolver

/-! ## The calls -/

section Calls

variable (env : Environment)

/-- `mysql_init` -/
def mysqlInit : Comp Trace Exception Bool := fun t ↦
  (.returned (env.init t), t ++ [.init (env.init t)])

/-- `mysql_real_connect` -/
def mysqlRealConnect (params : DbParams) : Comp Trace Exception Bool := fun t ↦
  (.returned (env.realConnect t params), t ++ [.realConnect params (env.realConnect t params)])

/-- `mysql_query` -/
def mysqlQuery (stmt : String) : Comp Trace Exception Bool := fun t ↦
  (.returned (env.query t stmt), t ++ [.query stmt (env.query t stmt)])

/-- `mysql_affected_rows` -/
def mysqlAffectedRows : Comp Trace Exception UInt64 := fun t ↦
  (.returned (env.affectedRows t), t ++ [.affectedRows (env.affectedRows t)])

/-- `mysql_store_result` -/
def mysqlStoreResult : Comp Trace Exception (Option Nat) := fun t ↦
  (.returned (env.storeResult t), t ++ [.storeResult (env.storeResult t)])

/-- `mysql_error` -/
def mysqlError : Comp Trace Exception String := fun t ↦ (.returned (env.error t), t ++ [.error])

/-- `mysql_free_result` -/
def mysqlFreeResult (result : Nat) : Comp Trace Exception Unit :=
  Comp.modify (· ++ [.freeResult result])

/-- `mysql_close` -/
def mysqlClose : Comp Trace Exception Unit := Comp.modify (· ++ [.close])

end Calls

/-! ## The rules -/

/-- A database handle, as the client library sees it. -/
structure Handle where
  /-- It was opened and not closed since. -/
  isOpen : Bool
  /-- How often `mysql_init` succeeded. -/
  opened : Nat
  /-- How often it was closed. -/
  closed : Nat
  /-- The result sets that are to be freed. -/
  pending : List Nat
  deriving DecidableEq

/-- The handle after `mysql_init`. -/
def Handle.afterInit (h : Handle) (ok : Bool) : Handle :=
  { h with isOpen := ok, opened := h.opened + ok.toNat }

/-- The handle after a call, if the call is allowed. -/
def Handle.step (h : Handle) : ClientCall → Option Handle
  | .init ok => some (h.afterInit ok)
  | .close => if h.isOpen then some { h with isOpen := false, closed := h.closed + 1 } else none
  | .storeResult (some r) => if h.isOpen then some { h with pending := r :: h.pending } else none
  | .freeResult r => if r ∈ h.pending then some { h with pending := h.pending.erase r } else none
  | .realConnect _ _ | .query _ _ | .affectedRows _ | .storeResult none | .error =>
    if h.isOpen then some h else none

/-- The protocol of a handle. -/
def handleProtocol : Protocol Handle ClientCall := ⟨⟨false, 0, 0, []⟩, Handle.step⟩

/-- The handle after the calls `t`, if all of them were allowed. -/
def handleAfter (t : Trace) : Option Handle := handleProtocol.run t

/-- No call broke the protocol, and every handle that was opened is closed. -/
def Balanced (t : Trace) : Prop := ∃ h, handleAfter t = some h ∧ h.closed = h.opened

/-- No call broke the protocol, the handle was opened once at most and closed as often, and every
result set is freed. -/
def Settled (t : Trace) : Prop :=
  ∃ h, handleAfter t = some h ∧ h.opened ≤ 1 ∧ h.closed = h.opened ∧ h.pending = []

section After

variable {t : Trace} {h : Handle}

theorem handleAfter_append (ht : handleAfter t = some h) (l : Trace) :
    handleAfter (t ++ l) = handleProtocol.runFrom (some h) l := by
  rw [handleAfter, Protocol.run_append, ← handleAfter, ht]

theorem handleAfter_init (ht : handleAfter t = some h) (ok : Bool) :
    handleAfter (t ++ [.init ok]) = some (h.afterInit ok) := handleAfter_append ht _

theorem handleAfter_error (ht : handleAfter t = some h) (hopen : h.isOpen = true) :
    handleAfter (t ++ [.error]) = some h := by
  rw [handleAfter_append ht]
  exact if_pos hopen

theorem handleAfter_close (ht : handleAfter t = some h) (hopen : h.isOpen = true) :
    handleAfter (t ++ [.close]) = some { h with isOpen := false, closed := h.closed + 1 } := by
  rw [handleAfter_append ht]
  exact if_pos hopen

/-- The calls that may not be made on a handle that is not open. -/
def NeedsOpen : ClientCall → Prop
  | .init _ | .freeResult _ => False
  | _ => True

/-- A call on a handle that is not open breaks the protocol, whatever comes after it. -/
theorem handleAfter_misuse (ht : handleAfter t = some h) (hopen : h.isOpen = false)
    (c : ClientCall) (hc : NeedsOpen c) (l : Trace) : handleAfter (t ++ c :: l) = none := by
  have hno : ¬ h.isOpen = true := by simp [hopen]
  have hstep : h.step c = none := by
    rcases c with _ | _ | _ | _ | (_ | _) | _ | _ | _
    case init | freeResult => exact hc.elim
    all_goals exact if_neg hno
  rw [handleAfter_append ht, Protocol.runFrom_cons]
  show handleProtocol.runFrom (h.step c) l = none
  rw [hstep, Protocol.runFrom_none]

/-- The calls that free no result set. -/
def NotFree (c : ClientCall) : Prop := ∀ r, c ≠ .freeResult r

/-- Everything an allowed call can do to the handle. -/
theorem step_cases {c : ClientCall} {h' : Handle} (hstep : h.step c = some h') :
    (∃ ok, c = .init ok ∧ h' = h.afterInit ok) ∨
    (c = .close ∧ h.isOpen = true ∧ h' = { h with isOpen := false, closed := h.closed + 1 }) ∨
    (∃ r, c = .storeResult (some r) ∧ h' = { h with pending := r :: h.pending }) ∨
    (∃ r, c = .freeResult r ∧ h' = { h with pending := h.pending.erase r }) ∨ h' = h := by
  rcases c with ok | _ | _ | _ | (_ | r) | r | _ | _ <;> simp only [Handle.step] at hstep
  case init => exact Or.inl ⟨ok, rfl, (Option.some.inj hstep).symm⟩
  all_goals
    obtain ⟨hif, heq⟩ := Option.ite_none_right_eq_some.mp hstep
    have heq' := (Option.some.inj heq).symm
  case close => exact Or.inr (Or.inl ⟨rfl, hif, heq'⟩)
  case storeResult.some => exact Or.inr (Or.inr (Or.inl ⟨r, rfl, heq'⟩))
  case freeResult => exact Or.inr (Or.inr (Or.inr (Or.inl ⟨r, rfl, heq'⟩)))
  all_goals exact Or.inr (Or.inr (Or.inr (Or.inr heq')))

/-- A result set stays pending until it is freed. -/
theorem step_pending {c : ClientCall} {h' : Handle} (hc : NotFree c) (hstep : h.step c = some h')
    (hpending : h.pending ≠ []) : h'.pending ≠ [] := by
  obtain ⟨ok, -, rfl⟩ | ⟨-, -, rfl⟩ | ⟨r, -, rfl⟩ | ⟨r, rfl, -⟩ | rfl := step_cases hstep
  · exact hpending
  · exact hpending
  · exact List.cons_ne_nil r _
  · exact absurd rfl (hc r)
  · exact hpending

/-- A handle that was opened and can no longer be closed, because it was opened again or its calls
broke the protocol. -/
def Lost (t : Trace) : Prop := ∀ h, handleAfter t = some h → h.closed + h.isOpen.toNat < h.opened

/-- A handle that was opened is not closed, or the calls broke the protocol. -/
def Leaks (t : Trace) : Prop := ∀ h, handleAfter t = some h → h.closed < h.opened

theorem step_lost {c : ClientCall} {h' : Handle} (hstep : h.step c = some h')
    (hlost : h.closed + h.isOpen.toNat < h.opened) : h'.closed + h'.isOpen.toNat < h'.opened := by
  obtain ⟨ok, -, rfl⟩ | ⟨-, hopen, rfl⟩ | ⟨r, -, rfl⟩ | ⟨r, -, rfl⟩ | rfl := step_cases hstep
  · show h.closed + ok.toNat < h.opened + ok.toNat
    omega
  · show h.closed + 1 + false.toNat < h.opened
    rw [hopen] at hlost
    exact hlost
  all_goals exact hlost

/-- What is lost stays lost. -/
theorem Lost.appends {p : ClientCall → Prop} {t' : Trace} (ht : Lost t) (h : Appends p t t') :
    Lost t' := by
  intro h' ht'
  cases hrun : handleAfter t with
  | none =>
    rw [handleAfter, h.broken hrun] at ht'
    exact absurd ht' (by simp)
  | some h₀ =>
    exact h.invariant (I := fun h ↦ h.closed + h.isOpen.toNat < h.opened)
      (fun _ _ _ _ hstep hlost ↦ step_lost hstep hlost) hrun ht' (ht h₀ hrun)

theorem Lost.leaks (ht : Lost t) : Leaks t := by
  intro h hrun
  have hlt := ht h hrun
  omega

/-- A handle that is opened again before it was closed is lost. -/
theorem Leaks.init (ht : Leaks t) (ok : Bool) : Lost (t ++ [.init ok]) := by
  intro h' hrun'
  cases hrun : handleAfter t with
  | none =>
    rw [handleAfter, Protocol.run_append, ← handleAfter, hrun, Protocol.runFrom_none] at hrun'
    exact absurd hrun' (by simp)
  | some h₀ =>
    rw [handleAfter_init hrun] at hrun'
    rw [← Option.some.inj hrun']
    have hlt := ht h₀ hrun
    show h₀.closed + ok.toNat < h₀.opened + ok.toNat
    omega

theorem Leaks.not_balanced (ht : Leaks t) : ¬ Balanced t := by
  rintro ⟨h, hrun, heq⟩
  have hlt := ht h hrun
  omega

theorem leaks_of_broken (ht : handleAfter t = none) : Leaks t := by
  intro h hrun
  rw [ht] at hrun
  exact absurd hrun (by simp)

theorem leaks_of_lt (ht : handleAfter t = some h) (hlt : h.closed < h.opened) : Leaks t := by
  intro h' hrun
  rw [ht] at hrun
  rw [← Option.some.inj hrun]
  exact hlt

end After

end Mariadb
end XaMain
