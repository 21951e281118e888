import XaMain.Lib.Protocol

/-!
# `scan_wait_for`

Two threads.  The scanner calls `checker_func` until it returns true, with a pause after every call
that returned false, and it looks at `_running` before each call.  When its function has returned or
thrown, the future becomes ready.  The thread that called `scan_wait_for` waits until the future is
ready or the timeout expires, sets `_running` to false, and is held by the destructor of the future
until the scanner has ended.

`scanWaitFor` is the step relation of the two, as a `Protocol`: a run is the list of the steps that
were taken, in any order the threads and the clock may take them, and a call of `checker_func` may
end in any of its three ways.  It starts when `std::async` has started the thread.

* The calls (`scanWaitFor_calls`): none is made after one that returned true or threw, one at most
  is made after `_running` was cleared, and none is made or still under way once `scan_wait_for` has
  returned.
* The result (`scanWaitFor_result_iff`): it says whether the future was ready and not how the checks
  went, so it is wrong when the checker throws in time and when it succeeds too late.
-/

set_option autoImplicit false

namespace XaMain
namespace Async

/-! ## The threads -/

/-- How a call of `checker_func` ends. -/
inductive Answer where
  /-- It returns true. -/
  | success
  /-- It returns false. -/
  | failure
  /-- It throws. -/
  | threw
  deriving DecidableEq

/-- How the function of the scanner ends. -/
inductive Ending where
  /-- `break`, after a call that returned true. -/
  | success
  /-- `_running` was false. -/
  | stopped
  /-- `checker_func` threw, and the exception is kept in the future. -/
  | threw
  deriving DecidableEq

/-- `std::future_status`, as far as a future that is not deferred can have it. -/
inductive FutureStatus where
  | ready
  | timeout
  deriving DecidableEq

/-- Where the scanner is. -/
inductive Scanner where
  /-- It is about to read `_running`. -/
  | testing
  /-- It has read true, and is about to call `checker_func`. -/
  | calling
  /-- The call is under way. -/
  | checking
  /-- It is in `sleep_for`. -/
  | sleeping
  /-- Its function is about to end, and the future is not ready yet. -/
  | ending (e : Ending)
  /-- Its function has ended, and the future is ready. -/
  | finished (e : Ending)
  deriving DecidableEq

/-- Where the thread that called `scan_wait_for` is. -/
inductive Waiter where
  /-- It is in `wait_for`. -/
  | waiting
  /-- `wait_for` has returned, and `_running` is about to be cleared. -/
  | stopping (status : FutureStatus)
  /-- It has its result, and is about to leave, or in the destructor of the future. -/
  | leaving (status : FutureStatus)
  /-- `scan_wait_for` has returned. -/
  | returned (result : Bool)
  deriving DecidableEq

/-- The two threads and what they share. -/
structure State where
  /-- `_running` -/
  running : Bool
  /-- The timeout has expired. -/
  expired : Bool
  scanner : Scanner
  waiter : Waiter
  deriving DecidableEq

/-- A step. -/
inductive Event where
  /-- The scanner reads `_running`. -/
  | test
  /-- The scanner calls `checker_func`. -/
  | call
  /-- The call ends. -/
  | answer (a : Answer)
  /-- `sleep_for` returns. -/
  | wake
  /-- The future becomes ready. -/
  | finish
  /-- The timeout expires. -/
  | expire
  /-- `wait_for` returns. -/
  | wait
  /-- `_running = false;` -/
  | stop
  /-- `scan_wait_for` returns. -/
  | leave
  deriving DecidableEq

/-- Where the scanner goes from a call that has ended. -/
def Answer.next : Answer → Scanner
  | .success => .ending .success
  | .failure => .sleeping
  | .threw => .ending .threw

/-- The state after a step, if the step can be taken.  `wait_for` returns `ready` if the future is
ready, and `timeout` only if it is not; and the destructor of the future joins the scanner. -/
def State.step (s : State) (c : Event) : Option State :=
  match c, s.scanner, s.waiter with
  | .test, .testing, _ =>
    some { s with scanner := if s.running then .calling else .ending .stopped }
  | .call, .calling, _ => some { s with scanner := .checking }
  | .answer a, .checking, _ => some { s with scanner := a.next }
  | .wake, .sleeping, _ => some { s with scanner := .testing }
  | .finish, .ending e, _ => some { s with scanner := .finished e }
  | .expire, _, _ => some { s with expired := true }
  | .wait, .finished _, .waiting => some { s with waiter := .stopping .ready }
  | .wait, _, .waiting =>
    if s.expired then some { s with waiter := .stopping .timeout } else none
  | .stop, _, .stopping status => some { s with running := false, waiter := .leaving status }
  | .leave, .finished _, .leaving status =>
    some { s with waiter := .returned (status == .ready) }
  | _, _, _ => none

/-- `scan_wait_for` -/
def scanWaitFor : Protocol State Event := ⟨⟨true, false, .testing, .waiting⟩, State.step⟩

/-- The steps there are, with what each needs and what it leads to. -/
inductive Transition (s : State) : Event → State → Prop where
  | enter (hs : s.scanner = .testing) (hr : s.running = true) :
    Transition s .test { s with scanner := .calling }
  | stopped (hs : s.scanner = .testing) (hr : s.running = false) :
    Transition s .test { s with scanner := .ending .stopped }
  | call (hs : s.scanner = .calling) : Transition s .call { s with scanner := .checking }
  | answer (a : Answer) (hs : s.scanner = .checking) :
    Transition s (.answer a) { s with scanner := a.next }
  | wake (hs : s.scanner = .sleeping) : Transition s .wake { s with scanner := .testing }
  | finish (e : Ending) (hs : s.scanner = .ending e) :
    Transition s .finish { s with scanner := .finished e }
  | expire : Transition s .expire { s with expired := true }
  | ready (hw : s.waiter = .waiting) (e : Ending) (hs : s.scanner = .finished e) :
    Transition s .wait { s with waiter := .stopping .ready }
  | timeout (hw : s.waiter = .waiting) (hs : ∀ e, s.scanner ≠ .finished e)
      (hx : s.expired = true) :
    Transition s .wait { s with waiter := .stopping .timeout }
  | stop (status : FutureStatus) (hw : s.waiter = .stopping status) :
    Transition s .stop { s with running := false, waiter := .leaving status }
  | leave (status : FutureStatus) (hw : s.waiter = .leaving status) (e : Ending)
      (hs : s.scanner = .finished e) :
    Transition s .leave { s with waiter := .returned (status == .ready) }

theorem transition {s s' : State} {c : Event} (h : s.step c = some s') : Transition s c s' := by
  obtain ⟨running, expired, scanner, waiter⟩ := s
  cases c with
  | test =>
    cases scanner with
    | testing =>
      cases running with
      | true => exact Option.some.inj h ▸ .enter rfl rfl
      | false => exact Option.some.inj h ▸ .stopped rfl rfl
    | _ => cases h
  | call =>
    cases scanner with
    | calling => exact Option.some.inj h ▸ .call rfl
    | _ => cases h
  | answer a =>
    cases scanner with
    | checking => exact Option.some.inj h ▸ .answer a rfl
    | _ => cases h
  | wake =>
    cases scanner with
    | sleeping => exact Option.some.inj h ▸ .wake rfl
    | _ => cases h
  | finish =>
    cases scanner with
    | ending e => exact Option.some.inj h ▸ .finish e rfl
    | _ => cases h
  | expire => exact Option.some.inj h ▸ .expire
  | wait =>
    cases waiter with
    | waiting =>
      cases scanner with
      | finished e => exact Option.some.inj h ▸ .ready rfl e rfl
      | _ =>
        obtain ⟨hx, hs⟩ := Option.ite_none_right_eq_some.mp h
        exact Option.some.inj hs ▸ .timeout rfl (by simp) hx
    | _ => cases scanner <;> cases h
  | stop =>
    cases waiter with
    | stopping status => exact Option.some.inj h ▸ .stop status rfl
    | _ => cases h
  | leave =>
    cases waiter with
    | leaving status =>
      cases scanner with
      | finished e => exact Option.some.inj h ▸ .leave status rfl e rfl
      | _ => cases h
    | _ => cases scanner <;> cases h

/-! ## The calls of the checker -/

/-- How a call has ended, if the step is the end of one. -/
def Event.answer? : Event → Option Answer
  | .answer a => some a
  | _ => none

/-- How the calls ended, in their order. -/
def answers (l : List Event) : List Answer := l.filterMap Event.answer?

/-- How the function of the scanner ends, once that is known. -/
def Scanner.ending? : Scanner → Option Ending
  | .ending e | .finished e => some e
  | _ => none

/-- The answer that ended the scan, if one did. -/
def Scanner.verdict (s : Scanner) : List Answer :=
  match s.ending? with
  | some .success => [.success]
  | some .threw => [.threw]
  | _ => []

/-- **The calls so far, and where the scanner is.**  They have all ended, but for one that is under
way; and they have all returned false, but for one that ended the scan. -/
def History (l : List Event) (s : State) : Prop :=
  l.count .call = (answers l).length + (if s.scanner = .checking then 1 else 0) ∧
    ∃ n, answers l = List.replicate n .failure ++ s.scanner.verdict

@[simp] theorem answers_concat (l : List Event) (c : Event) :
    answers (l ++ [c]) = answers l ++ c.answer?.toList := by
  cases h : c.answer? <;> simp [answers, h]

theorem mem_answers {l : List Event} {a : Answer} : a ∈ answers l ↔ .answer a ∈ l := by
  rw [answers, List.mem_filterMap]
  refine ⟨?_, fun h ↦ ⟨_, h, rfl⟩⟩
  rintro ⟨c, hc, ha⟩
  cases c with
  | answer a' => exact Option.some.inj ha ▸ hc
  | _ => cases ha

theorem step_history (l : List Event) (s : State) (c : Event) (s' : State)
    (hstep : s.step c = some s') (h : History l s) : History (l ++ [c]) s' := by
  obtain ⟨hcount, n, hn⟩ := h
  rw [History, answers_concat, List.count_append]
  cases transition hstep with
  | enter hs _ | stopped hs _ | wake hs | call hs | finish _ hs =>
    rw [hs] at hcount hn
    exact ⟨by simpa [Event.answer?] using hcount, n,
      by simpa [Event.answer?, Scanner.verdict, Scanner.ending?] using hn⟩
  | answer a hs =>
    rw [hs] at hcount hn
    cases a with
    | failure =>
      refine ⟨by simpa [Event.answer?, Answer.next] using hcount, n + 1, ?_⟩
      simpa [Event.answer?, Answer.next, Scanner.verdict, Scanner.ending?, List.replicate_succ']
        using hn
    | _ =>
      refine ⟨by simpa [Event.answer?, Answer.next] using hcount, n, ?_⟩
      simpa [Event.answer?, Answer.next, Scanner.verdict, Scanner.ending?] using hn
  | expire | ready _ _ _ | timeout _ _ _ | stop _ _ | leave _ _ _ _ =>
    exact ⟨by simpa [Event.answer?] using hcount, n, by simpa [Event.answer?] using hn⟩

theorem history {l : List Event} {s : State} (h : scanWaitFor.run l = some s) : History l s :=
  scanWaitFor.run_history step_history ⟨rfl, 0, rfl⟩ h

/-- Once the function of the scanner is about to end, it makes no more calls. -/
theorem ending_stays {s s' : State} {e : Ending} (hs : s.scanner.ending? = some e) {l : List Event}
    (h : scanWaitFor.runFrom (some s) l = some s') :
    s'.scanner.ending? = some e ∧ .call ∉ l ∧ ∀ a, .answer a ∉ l := by
  refine scanWaitFor.runFrom_history (m := []) (I := fun l s ↦ s.scanner.ending? = some e ∧
    .call ∉ l ∧ ∀ a, .answer a ∉ l) ?_ (by simp [hs]) h
  rintro l s c s' hstep ⟨hs, hcall, hanswer⟩
  cases transition hstep with
  | enter h _ | stopped h _ | call h | answer _ h | wake h => rw [h] at hs; cases hs
  | finish e' h =>
    rw [h] at hs
    exact ⟨hs, by simp [hcall], fun a ↦ by simp [hanswer a]⟩
  | expire | ready _ _ _ | timeout _ _ _ | stop _ _ | leave _ _ _ _ =>
    exact ⟨hs, by simp [hcall], fun a ↦ by simp [hanswer a]⟩

/-- Once `_running` is cleared, the scanner makes the call it is about to make, and no other. -/
theorem count_call_of_not_running {s s' : State} (hs : s.running = false) {l : List Event}
    (h : scanWaitFor.runFrom (some s) l = some s') : l.count .call ≤ 1 := by
  have hinv : s'.running = false ∧
      l.count .call + (if s'.scanner = .calling then 1 else 0) ≤ 1 := by
    refine scanWaitFor.runFrom_history (m := []) (I := fun l s ↦ s.running = false ∧
      l.count .call + (if s.scanner = .calling then 1 else 0) ≤ 1) ?_ ⟨hs, ?_⟩ h
    · rintro l s c s' hstep ⟨hs, hcount⟩
      rw [List.count_append]
      cases transition hstep with
      | enter _ hr => rw [hs] at hr; cases hr
      | call h =>
        rw [h] at hcount
        exact ⟨hs, by simpa using hcount⟩
      | answer a h =>
        rw [h] at hcount
        refine ⟨hs, ?_⟩
        cases a <;> simpa [Answer.next] using hcount
      | stopped h _ | wake h | finish _ h =>
        rw [h] at hcount
        exact ⟨hs, by simpa using hcount⟩
      | expire | ready _ _ _ | timeout _ _ _ | stop _ _ | leave _ _ _ _ =>
        exact ⟨by simp [hs], by simpa using hcount⟩
    · split <;> simp
  omega

/-- The calls that have ended with something other than false end the scan. -/
theorem ending_of_answer {s s' : State} {a : Answer} (ha : a ≠ .failure)
    (h : s.step (.answer a) = some s') : ∃ e, s'.scanner = .ending e := by
  cases transition h with
  | answer a _ =>
    cases a with
    | failure => exact absurd rfl ha
    | success => exact ⟨_, rfl⟩
    | threw => exact ⟨_, rfl⟩

/-- `scan_wait_for` returns when the scanner has ended. -/
theorem finished_of_leave {s s' : State} (h : s.step .leave = some s') :
    ∃ e, s.scanner = .finished e ∧ s'.scanner = .finished e := by
  cases transition h with
  | leave status _ e he => exact ⟨e, he, he⟩

/-- All answers but the last are `failure`. -/
theorem answers_of_history {l : List Event} {s : State} (h : History l s) {i : Nat}
    (hi : i + 1 < l.count .call) : (answers l)[i]? = some .failure := by
  obtain ⟨hcount, n, hn⟩ := h
  have hlt : i < n := by
    rw [hn, List.length_append, List.length_replicate] at hcount
    rcases hs : s.scanner with _ | _ | _ | _ | (_ | _ | _) | (_ | _ | _) <;>
      simp [hs, Scanner.verdict, Scanner.ending?] at hcount <;> omega
  rw [hn, List.getElem?_append_left (by simpa using hlt), List.getElem?_replicate, if_pos hlt]

/-- **`scan_wait_for` polls no further than it should, and not after it has returned.**  In every
run: no call is made after one that returned true or threw; every call but the last has returned
false; one call at most is made after `_running` was cleared; and when `scan_wait_for` returns,
every call that was made has ended, and none is made after it. -/
theorem scanWaitFor_calls (l : List Event) (s : State) (h : scanWaitFor.run l = some s) :
    (∀ l₁ a l₂, l = l₁ ++ .answer a :: l₂ → a ≠ .failure → .call ∉ l₂) ∧
    (∀ i, i + 1 < l.count .call → (answers l)[i]? = some .failure) ∧
    (∀ l₁ l₂, l = l₁ ++ .stop :: l₂ → l₂.count .call ≤ 1) ∧
    (∀ l₁ l₂, l = l₁ ++ .leave :: l₂ →
      l₁.count .call = (answers l₁).length ∧ .call ∉ l₂ ∧ ∀ a, .answer a ∉ l₂) := by
  refine ⟨?_, fun i hi ↦ answers_of_history (history h) hi, ?_, ?_⟩
  · rintro l₁ a l₂ rfl ha
    obtain ⟨s₁, s₂, -, hstep, hrest⟩ := scanWaitFor.run_split h
    obtain ⟨e, he⟩ := ending_of_answer ha hstep
    have hending : s₂.scanner.ending? = some e := by rw [he]; rfl
    exact (ending_stays hending hrest).2.1
  · rintro l₁ l₂ rfl
    obtain ⟨s₁, s₂, -, hstep, hrest⟩ := scanWaitFor.run_split h
    cases transition hstep with
    | stop status _ => exact count_call_of_not_running rfl hrest
  · rintro l₁ l₂ rfl
    obtain ⟨s₁, s₂, hrun, hstep, hrest⟩ := scanWaitFor.run_split h
    obtain ⟨e, he₁, he₂⟩ := finished_of_leave hstep
    have hcount := (history hrun).1
    rw [he₁] at hcount
    have hending : s₂.scanner.ending? = some e := by rw [he₂]; rfl
    exact ⟨by simpa using hcount, (ending_stays hending hrest).2⟩

/-- The run of the unit test in which the third call succeeds in time. -/
def thirdCallSucceeds : List Event :=
  [.test, .call, .answer .failure, .wake, .test, .call, .answer .failure, .wake, .test, .call,
    .answer .success, .finish, .wait, .stop, .leave]

theorem scanWaitFor_calls_thirdCall : (answers thirdCallSucceeds)[1]? = some .failure ∧
    ∀ l₁ l₂, thirdCallSucceeds = l₁ ++ .leave :: l₂ → .call ∉ l₂ := by
  have h := scanWaitFor_calls thirdCallSucceeds
    ⟨false, false, .finished .success, .returned true⟩ (by decide)
  exact ⟨h.2.1 1 (by decide), fun l₁ l₂ hl ↦ (h.2.2.2 l₁ l₂ hl).2.1⟩

/-! ## The result -/

theorem answer_mem_iff {l : List Event} {s : State} (h : History l s) :
    (.answer .success ∈ l ↔ s.scanner.ending? = some .success) ∧
      (.answer .threw ∈ l ↔ s.scanner.ending? = some .threw) := by
  obtain ⟨-, n, hn⟩ := h
  rw [← mem_answers, ← mem_answers, hn]
  rcases hs : s.scanner.ending? with _ | (_ | _ | _) <;>
    simp [Scanner.verdict, hs, List.mem_replicate]

/-- The future is ready iff it has become so in the run. -/
theorem finish_mem_iff {l : List Event} {s : State} (h : scanWaitFor.run l = some s) :
    .finish ∈ l ↔ ∃ e, s.scanner = .finished e := by
  refine scanWaitFor.run_history (I := fun l s ↦ .finish ∈ l ↔ ∃ e, s.scanner = .finished e)
    ?_ (by simp [scanWaitFor]) h
  intro l s c s' hstep h
  cases transition hstep with
  | enter hs _ | stopped hs _ | call hs | wake hs => simpa [hs] using h
  | answer a hs => cases a <;> simpa [hs, Answer.next] using h
  | finish e _ => simp
  | expire | ready _ _ _ | timeout _ _ _ | stop _ _ | leave _ _ _ _ => simpa using h

/-- **Until the wait is over**, `_running` is true, and so the scanner has not been stopped. -/
def Unstopped (l : List Event) (s : State) : Prop :=
  (s.waiter = .waiting ↔ .wait ∉ l) ∧
    (s.waiter = .waiting ∨ (∃ status, s.waiter = .stopping status) → s.running = true) ∧
    (s.scanner.ending? = some .stopped → s.running = false)

theorem step_unstopped (l : List Event) (s : State) (c : Event) (s' : State)
    (hstep : s.step c = some s') (h : Unstopped l s) : Unstopped (l ++ [c]) s' := by
  obtain ⟨hwait, hrunning, hstopped⟩ := h
  cases transition hstep with
  | enter hs _ | call hs | wake hs =>
    exact ⟨by simpa using hwait, hrunning, by simp [Scanner.ending?]⟩
  | stopped hs hr => exact ⟨by simpa using hwait, hrunning, fun _ ↦ hr⟩
  | answer a hs =>
    refine ⟨by simpa using hwait, hrunning, ?_⟩
    cases a <;> simp [Answer.next, Scanner.ending?]
  | finish e hs =>
    rw [hs] at hstopped
    exact ⟨by simpa using hwait, hrunning, hstopped⟩
  | expire => exact ⟨by simpa using hwait, hrunning, hstopped⟩
  | ready hw e hs | timeout hw hs _ =>
    exact ⟨by simp, fun _ ↦ hrunning (Or.inl hw), hstopped⟩
  | stop status hw => exact ⟨by simpa [hw] using hwait, by simp, fun _ ↦ rfl⟩
  | leave status hw e hs => exact ⟨by simpa [hw] using hwait, by simp, hstopped⟩

theorem unstopped {l : List Event} {s : State} (h : scanWaitFor.run l = some s) : Unstopped l s :=
  scanWaitFor.run_history step_unstopped ⟨by decide, fun _ ↦ rfl, by decide⟩ h

/-- What the waiter knows of the wait, once it is over. -/
def Waiter.HasStatus (status : FutureStatus) : Waiter → Prop
  | .waiting => False
  | .stopping st | .leaving st => st = status
  | .returned r => r = (status == .ready)

/-- The status does not change after the wait. -/
theorem hasStatus_stays {s s' : State} {status : FutureStatus} (hs : s.waiter.HasStatus status)
    {l : List Event} (h : scanWaitFor.runFrom (some s) l = some s') :
    s'.waiter.HasStatus status := by
  refine scanWaitFor.runFrom_history (m := []) (I := fun _ s ↦ s.waiter.HasStatus status) ?_ hs h
  rintro l s c s' hstep hs
  cases transition hstep with
  | ready hw _ _ | timeout hw _ _ => rw [hw] at hs; exact hs.elim
  | stop st hw => rw [hw] at hs; exact hs
  | leave st hw e _ =>
    rw [hw] at hs
    exact congrArg (· == FutureStatus.ready) hs
  | _ => exact hs

/-- `wait_for` says whether the future is ready. -/
theorem step_wait {s s' : State} (h : s.step .wait = some s') :
    s.waiter = .waiting ∧ s'.scanner = s.scanner ∧
      ((∃ e, s.scanner = .finished e) ∧ s'.waiter = .stopping .ready ∨
        (¬ ∃ e, s.scanner = .finished e) ∧ s'.waiter = .stopping .timeout) := by
  cases transition h with
  | ready hw e he => exact ⟨hw, rfl, Or.inl ⟨⟨e, he⟩, rfl⟩⟩
  | timeout hw he _ => exact ⟨hw, rfl, Or.inr ⟨fun ⟨e, h⟩ ↦ he e h, rfl⟩⟩

/-- The result is true iff the future had become ready when the wait was over. -/
theorem result_iff {l₁ l₂ : List Event} {s : State} {r : Bool}
    (h : scanWaitFor.run (l₁ ++ .wait :: l₂) = some s) (hr : s.waiter = .returned r) :
    r = true ↔ .finish ∈ l₁ := by
  obtain ⟨s₁, s₂, hrun, hstep, hrest⟩ := scanWaitFor.run_split h
  have hstatus (status : FutureStatus) (hw : s₂.waiter = .stopping status) :
      r = (status == .ready) := by
    have hstays : s.waiter.HasStatus status := hasStatus_stays (by rw [hw]; rfl) hrest
    rwa [hr] at hstays
  rw [finish_mem_iff hrun]
  obtain ⟨-, -, ⟨hfinished, hw⟩ | ⟨hnot, hw⟩⟩ := step_wait hstep
  · simp [hstatus _ hw, hfinished]
  · simp [hstatus _ hw, hnot]

/-- If the future becomes ready before the wait is over, then a call has returned true or thrown;
which of the two is settled by then. -/
theorem success_iff_not_threw {l₁ l₂ : List Event} {s : State}
    (h : scanWaitFor.run (l₁ ++ .wait :: l₂) = some s) (hfinish : .finish ∈ l₁) :
    .answer .success ∈ l₁ ++ .wait :: l₂ ↔ .answer .threw ∉ l₁ ++ .wait :: l₂ := by
  obtain ⟨s₁, s₂, hrun, hstep, hrest⟩ := scanWaitFor.run_split h
  obtain ⟨e, he⟩ := (finish_mem_iff hrun).mp hfinish
  obtain ⟨hw, hscanner, -⟩ := step_wait hstep
  have hstopped : e ≠ .stopped := by
    -- `_running` is true up to here, so the scanner has not been stopped
    rintro rfl
    have hfalse := (unstopped hrun).2.2 (by rw [he]; rfl)
    rw [(unstopped hrun).2.1 (Or.inl hw)] at hfalse
    cases hfalse
  have hending : s.scanner.ending? = some e :=
    (ending_stays (by rw [hscanner, he]; rfl) hrest).1
  rw [(answer_mem_iff (history h)).1, (answer_mem_iff (history h)).2, hending]
  cases e with
  | stopped => exact absurd rfl hstopped
  | success => simp
  | threw => simp

/-- **When the result is the success of the checker.**  When `scan_wait_for` has returned `r`, then
`r` is true iff a call of the checker returned true, exactly in these runs: if a call throws, the
future does not become ready before the wait is over; and if a call returns true, it does. -/
theorem scanWaitFor_result_iff (l : List Event) (s : State) (r : Bool)
    (h : scanWaitFor.run l = some s) (hr : s.waiter = .returned r) :
    (r = true ↔ .answer .success ∈ l) ↔
      ∀ l₁ l₂, l = l₁ ++ .wait :: l₂ →
        (.answer .threw ∈ l → .finish ∉ l₁) ∧ (.answer .success ∈ l → .finish ∈ l₁) := by
  have hwait : .wait ∈ l := Decidable.byContradiction fun hno ↦ by
    have hw := (unstopped h).1.mpr hno
    rw [hr] at hw
    cases hw
  refine ⟨?_, fun hin ↦ ?_⟩
  · rintro hiff l₁ l₂ rfl
    rw [result_iff h hr] at hiff
    exact ⟨fun hthrew hfinish ↦ (success_iff_not_threw h hfinish).mp (hiff.mp hfinish) hthrew,
      hiff.mpr⟩
  · obtain ⟨l₁, l₂, rfl⟩ := List.append_of_mem hwait
    obtain ⟨hthrew, hsuccess⟩ := hin l₁ l₂ rfl
    rw [result_iff h hr]
    exact ⟨fun hfinish ↦ (success_iff_not_threw h hfinish).mpr fun hmem ↦ hthrew hmem hfinish,
      hsuccess⟩

theorem scanWaitFor_result_iff_thirdCall : .answer .success ∈ thirdCallSucceeds ∧
    ∀ l₁ l₂, thirdCallSucceeds = l₁ ++ .wait :: l₂ →
      (.answer .threw ∈ thirdCallSucceeds → .finish ∉ l₁) ∧
        (.answer .success ∈ thirdCallSucceeds → .finish ∈ l₁) := by
  have h := scanWaitFor_result_iff thirdCallSucceeds
    ⟨false, false, .finished .success, .returned true⟩ true (by decide) rfl
  exact ⟨by decide, h.mp (by decide)⟩

/-- The checker throws, and the result is true; the first call succeeds after the timeout, and the
result is false; and so it is when the call has succeeded but the timeout comes before the future is
ready. -/
theorem not_scanWaitFor_result :
    scanWaitFor.run [.test, .call, .answer .threw, .finish, .wait, .stop, .leave]
      = some ⟨false, false, .finished .threw, .returned true⟩ ∧
    scanWaitFor.run [.test, .call, .expire, .wait, .stop, .answer .success, .finish, .leave]
      = some ⟨false, true, .finished .success, .returned false⟩ ∧
    scanWaitFor.run [.test, .call, .answer .success, .expire, .wait, .finish, .stop, .leave]
      = some ⟨false, true, .finished .success, .returned false⟩ ∧
    ¬ ∀ (l : List Event) (s : State) (r : Bool), scanWaitFor.run l = some s →
      s.waiter = .returned r → (r = true ↔ .answer .success ∈ l) := by
  have hthrew : scanWaitFor.run [.test, .call, .answer .threw, .finish, .wait, .stop, .leave]
      = some ⟨false, false, .finished .threw, .returned true⟩ := by decide
  refine ⟨hthrew, by decide, by decide, fun h ↦ ?_⟩
  exact absurd ((h _ _ _ hthrew rfl).mp rfl) (by decide)

end Async
end XaMain
