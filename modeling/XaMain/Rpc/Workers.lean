import XaMain.Lib.Protocol
import XaMain.Rpc.Routing
import Mathlib.Algebra.BigOperators.Group.Finset.Piecewise
import Mathlib.Algebra.Order.BigOperators.Group.Finset
import Mathlib.Data.Fintype.Option

/-!
# The threads of a server

`start` starts a thread that runs `rpc_base::run`.  That thread creates `server_`, starts the other
`nthreads_ - 1` threads, which call `server_->run()` as it does itself after that, and joins them
before it ends.  They all call the handler, which is a local variable of `run`.

`threads` is the step relation of a server with `m + 1` threads, as a `Protocol`; its `serve` may be
any function of the request and the response.  When `http_server::run` may return is left to the
library, and `HttpLib.StopsRun` is what is documented of it.

* `threads_join` — while a thread may call the handler, it is there; and when `join` has returned,
  no thread is left that may, and every request that was taken up was answered by the thread that
  took it up.
* `threads_shutdown` — once the server is asked to stop, and if the handler does not throw, there is
  a next step until `run` has returned, and if no more requests come in then there are only so many.
-/

set_option autoImplicit false

namespace XaMain
namespace Rpc

/-! ## The threads -/

/-- Where `rpc_base::run` is. -/
inductive RunAt where
  /-- Its thread is not started. -/
  | absent
  /-- `server_` is about to be created. -/
  | creating
  /-- It starts the other threads. -/
  | starting
  /-- It is in `server_->run()`. -/
  | serving
  /-- It joins the other threads. -/
  | joining
  /-- It has returned, and its thread has ended. -/
  | finished
  deriving DecidableEq

/-- A thread that calls the handler: that of `run`, or one of those it starts. -/
abbrev Runner (m : Nat) := Option (Fin m)

/-- The threads and what they share. -/
structure Workers (m : Nat) where
  run : RunAt
  /-- How many of the other threads are started. -/
  started : Nat
  /-- The other threads in which `server_->run()` has returned. -/
  returned : Fin m → Bool
  /-- How many of them are joined. -/
  joined : Nat
  /-- The requests for which the handler is called. -/
  handling : Runner m → Option HttpRequest
  /-- `server_->stop()` was called. -/
  stopRequested : Bool
  /-- A thread has thrown, and nothing catches it. -/
  aborted : Bool
  /-- The requests that were answered, with the responses. -/
  answered : List (HttpRequest × HttpResponse)

/-- A step. -/
inductive WorkersEvent (m : Nat) where
  /-- `start();` -/
  | start
  /-- `server_` is created. -/
  | create
  /-- One of the other threads is started. -/
  | launch
  /-- `server_->run()` is called by `run`. -/
  | enter
  /-- The handler is called for a request. -/
  | accept (r : Runner m) (request : HttpRequest)
  /-- The handler returns. -/
  | respond (r : Runner m)
  /-- `stop();` -/
  | stop
  /-- `server_->run()` returns. -/
  | leave (r : Runner m)
  /-- One of the other threads is joined. -/
  | reap
  /-- `run` returns, and its thread ends. -/
  | finish
  /-- `join();` returns. -/
  | join
  /-- A thread throws. -/
  | fail

/-- How far `run` is. -/
def RunAt.phase : RunAt → Nat
  | .absent => 0
  | .creating => 1
  | .starting => 2
  | .serving => 3
  | .joining => 4
  | .finished => 5

section Steps

variable {m : Nat}

/-- The thread is in `server_->run()`, or about to call it. -/
def Workers.InRun (s : Workers m) : Runner m → Prop
  | none => s.run = .serving
  | some i => i.1 < s.started ∧ s.returned i = false

instance (s : Workers m) (r : Runner m) : Decidable (s.InRun r) :=
  match r with
  | none => inferInstanceAs (Decidable (_ = _))
  | some _ => inferInstanceAs (Decidable (_ ∧ _))

variable (lib : HttpLib) (server : RpcBase)

/-- The response to a request, if the handler returns one. -/
def handlerResponse (request : HttpRequest) : Option HttpResponse :=
  match handle lib server request ⟨0, [], ""⟩ with
  | (.returned (), response) => some response
  | _ => none

/-- When a step can be taken. -/
def Workers.Guard (s : Workers m) : WorkersEvent m → Prop
  | .start => s.run = .absent
  | .create => s.run = .creating
  | .launch => s.run = .starting ∧ s.started < m
  | .enter => s.run = .starting ∧ s.started = m
  | .accept r _ => s.InRun r ∧ s.handling r = none
  | .respond r => ((s.handling r).bind (handlerResponse lib server)).isSome = true
  | .stop => 2 ≤ s.run.phase
  | .leave r => s.InRun r ∧ lib.runReturns s.stopRequested (s.handling r).isSome = true
  | .reap => s.run = .joining ∧ ∃ i : Fin m, i.1 = s.joined ∧ s.returned i = true
  | .finish => s.run = .joining ∧ s.joined = m
  | .join => s.run = .finished
  | .fail => s.run ≠ .absent ∧ s.run ≠ .finished

/-- The answer that a thread is about to give, with its request. -/
def Workers.due (s : Workers m) (r : Runner m) : Option (HttpRequest × HttpResponse) := do
  let request ← s.handling r
  let response ← handlerResponse lib server request
  return (request, response)

/-- The state after a step. -/
def Workers.after (s : Workers m) : WorkersEvent m → Workers m
  | .start => { s with run := .creating }
  | .create => { s with run := .starting }
  | .launch => { s with started := s.started + 1 }
  | .enter => { s with run := .serving }
  | .accept r request => { s with handling := Function.update s.handling r (some request) }
  | .respond r => { s with
      handling := Function.update s.handling r none
      answered := s.answered ++ (s.due lib server r).toList }
  | .stop => { s with stopRequested := true }
  | .leave none => { s with run := .joining }
  | .leave (some i) => { s with returned := Function.update s.returned i true }
  | .reap => { s with joined := s.joined + 1 }
  | .finish => { s with run := .finished }
  | .join => s
  | .fail => { s with aborted := true }

instance (s : Workers m) (c : WorkersEvent m) : Decidable (s.Guard lib server c) :=
  match c with
  | .start | .create | .join | .respond _ => inferInstanceAs (Decidable (_ = _))
  | .stop => inferInstanceAs (Decidable (_ ≤ _))
  | .launch | .enter | .accept _ _ | .leave _ | .finish | .fail | .reap =>
    inferInstanceAs (Decidable (_ ∧ _))

/-- **What is documented of `http_server::run`**: it returns when `stop` was called, and not before
and not from within a call of the handler. -/
structure HttpLib.StopsRun (lib : HttpLib) : Prop where
  only : ∀ stopped handling,
    lib.runReturns stopped handling = true → stopped = true ∧ handling = false
  returns : lib.runReturns true false = true

/-- A step can be taken until a thread has thrown. -/
def Workers.step (s : Workers m) (c : WorkersEvent m) : Option (Workers m) :=
  if s.aborted = false ∧ s.Guard lib server c then some (s.after lib server c) else none

/-- The state before `start`. -/
def Workers.initial (m : Nat) : Workers m where
  run := .absent
  started := 0
  returned _ := false
  joined := 0
  handling _ := none
  stopRequested := false
  aborted := false
  answered := []

/-- The threads of a server, from before `start`. -/
def threads (lib : HttpLib) (server : RpcBase) (m : Nat) :
    Protocol (Workers m) (WorkersEvent m) :=
  ⟨.initial m, Workers.step lib server⟩

end Steps

/-! ## Where the threads are -/

section Run

variable {lib : HttpLib} {server : RpcBase} {m : Nat} {s s' : Workers m} {c : WorkersEvent m}
  {l : List (WorkersEvent m)}

theorem workers_step_cases (h : s.step lib server c = some s') :
    s.aborted = false ∧ s.Guard lib server c ∧ s' = s.after lib server c := by
  obtain ⟨⟨haborted, hguard⟩, heq⟩ := Option.ite_none_right_eq_some.mp h
  exact ⟨haborted, hguard, (Option.some.inj heq).symm⟩

/-- A thread that leaves `server_->run()` is in no call of the handler, and was asked to. -/
theorem HttpLib.StopsRun.of_leave (hlib : lib.StopsRun) {r : Runner m}
    (hguard : s.Guard lib server (.leave r)) :
    s.InRun r ∧ s.handling r = none ∧ s.stopRequested = true := by
  obtain ⟨hr, hreturns⟩ := hguard
  obtain ⟨hstop, hidle⟩ := hlib.only _ _ hreturns
  exact ⟨hr, by simpa using hidle, hstop⟩

/-- How far `run` is, and how many threads it has started and joined. -/
structure Workers.Phased (s : Workers m) : Prop where
  started_le : s.started ≤ m
  started_none : s.run.phase ≤ 1 → s.started = 0
  started_all : 3 ≤ s.run.phase → s.started = m
  joined_le : s.joined ≤ m
  joined_all : s.run.phase = 5 → s.joined = m
  stop_created : s.stopRequested = true → 2 ≤ s.run.phase
  stop_left : 4 ≤ s.run.phase → s.stopRequested = true

theorem step_phased (hlib : lib.StopsRun) (hguard : s.Guard lib server c) (h : s.Phased) :
    (s.after lib server c).Phased := by
  obtain ⟨hle, hnone, hall, hjle, hjall, hcreated, hleft⟩ := h
  cases c with
  | start | create =>
    simp only [Workers.Guard] at hguard
    simp only [hguard, RunAt.phase] at hnone hcreated
    constructor <;> simp [Workers.after, RunAt.phase] <;> grind
  | launch | enter | finish =>
    simp only [Workers.Guard] at hguard
    simp only [hguard.1, RunAt.phase] at hall hleft
    constructor <;> simp [Workers.after, RunAt.phase] <;> grind [RunAt.phase]
  | leave r =>
    cases r with
    | none =>
      obtain ⟨hrun, -, hstop⟩ := hlib.of_leave hguard
      have hstarted := hall (by rw [show s.run = .serving from hrun]; decide)
      refine ⟨hle, by simp [Workers.after, RunAt.phase], fun _ ↦ hstarted, hjle,
        by simp [Workers.after, RunAt.phase], by simp [Workers.after, RunAt.phase], fun _ ↦ hstop⟩
    | some i => exact ⟨hle, hnone, hall, hjle, hjall, hcreated, hleft⟩
  | reap =>
    obtain ⟨hrun, i, hi, -⟩ := hguard
    have hlt : s.joined < m := hi ▸ i.isLt
    exact ⟨hle, hnone, hall, hlt, by simp [Workers.after, hrun, RunAt.phase], hcreated, hleft⟩
  | stop => exact ⟨hle, hnone, hall, hjle, hjall, fun _ ↦ hguard, fun _ ↦ rfl⟩
  | _ => exact ⟨hle, hnone, hall, hjle, hjall, hcreated, hleft⟩

/-- Which of the other threads have returned, and which are joined. -/
structure Workers.Returned (s : Workers m) : Prop where
  returned : ∀ i, s.returned i = true → i.1 < s.started ∧ s.stopRequested = true
  joined : ∀ i : Fin m, i.1 < s.joined → s.returned i = true

theorem step_returned (hlib : lib.StopsRun) (hguard : s.Guard lib server c) (h : s.Returned) :
    (s.after lib server c).Returned := by
  obtain ⟨hreturned, hjoined⟩ := h
  cases c with
  | launch =>
    refine ⟨fun i hi ↦ ?_, hjoined⟩
    obtain ⟨hstarted, hstop⟩ := hreturned i hi
    exact ⟨hstarted.trans (Nat.lt_succ_self _), hstop⟩
  | stop => exact ⟨fun i hi ↦ ⟨(hreturned i hi).1, rfl⟩, hjoined⟩
  | leave r =>
    cases r with
    | none => exact ⟨hreturned, hjoined⟩
    | some i =>
      obtain ⟨⟨hstarted, -⟩, -, hstop⟩ := hlib.of_leave hguard
      refine ⟨fun j hj ↦ ?_, fun j hj ↦ ?_⟩
      · by_cases hij : j = i
        · subst hij
          exact ⟨hstarted, hstop⟩
        · exact hreturned j (by simpa [Workers.after, hij] using hj)
      · by_cases hij : j = i
        · simp [Workers.after, hij]
        · simpa [Workers.after, hij] using hjoined j hj
  | reap =>
    obtain ⟨-, i, hi, hreturned'⟩ := hguard
    refine ⟨hreturned, fun j hj ↦ ?_⟩
    obtain hlt | heq := Nat.lt_or_eq_of_le (Nat.lt_succ_iff.mp hj)
    · exact hjoined j hlt
    · rwa [show j = i from Fin.ext (heq.trans hi.symm)]
  | _ => exact ⟨hreturned, hjoined⟩

/-- **The handler is called in `server_->run()` only.** -/
def Workers.Handled (s : Workers m) : Prop := ∀ r, s.handling r ≠ none → s.InRun r

/-- A thread that is in `server_->run()` stays there until it leaves. -/
theorem inRun_after (hguard : s.Guard lib server c) {r : Runner m} (hr : s.InRun r)
    (hc : c ≠ .leave r) : (s.after lib server c).InRun r := by
  cases r with
  | none =>
    have hrun : s.run = .serving := hr
    cases c with
    | leave r =>
      cases r with
      | none => exact absurd rfl hc
      | some i => exact hr
    | start | create | launch | enter | reap | finish | join =>
      simp [Workers.Guard, hrun] at hguard
    | _ => exact hr
  | some i =>
    obtain ⟨hstarted, hreturned⟩ := hr
    cases c with
    | launch => exact ⟨hstarted.trans (Nat.lt_succ_self _), hreturned⟩
    | leave r =>
      cases r with
      | none => exact ⟨hstarted, hreturned⟩
      | some j =>
        have hij : i ≠ j := fun hij ↦ hc (hij ▸ rfl)
        exact ⟨hstarted, by simpa [Workers.after, hij] using hreturned⟩
    | _ => exact ⟨hstarted, hreturned⟩

/-- What the handler is called for changes only when it is called or returns. -/
theorem handling_after {r : Runner m} (haccept : ∀ request, c ≠ .accept r request)
    (hrespond : c ≠ .respond r) : (s.after lib server c).handling r = s.handling r := by
  cases c with
  | accept r' request =>
    have hne : r ≠ r' := fun hrr ↦ haccept request (hrr ▸ rfl)
    simp [Workers.after, hne]
  | respond r' =>
    have hne : r ≠ r' := fun hrr ↦ hrespond (hrr ▸ rfl)
    simp [Workers.after, hne]
  | leave r' => cases r' <;> rfl
  | _ => rfl

theorem step_handled (hlib : lib.StopsRun) (hguard : s.Guard lib server c) (h : s.Handled) :
    (s.after lib server c).Handled := by
  intro r hr
  by_cases haccept : ∃ request, c = .accept r request
  · obtain ⟨request, rfl⟩ := haccept
    exact inRun_after hguard hguard.1 (by simp)
  by_cases hrespond : c = .respond r
  · subst hrespond
    simp [Workers.after] at hr
  · rw [handling_after (fun request hc ↦ haccept ⟨request, hc⟩) hrespond] at hr
    refine inRun_after hguard (h r hr) ?_
    rintro rfl
    exact hr (hlib.of_leave hguard).2.1

/-- The three together. -/
structure Workers.Placed (s : Workers m) : Prop where
  phased : s.Phased
  returned : s.Returned
  handled : s.Handled

theorem step_workersPlaced (hlib : lib.StopsRun) (hguard : s.Guard lib server c)
    (h : s.Placed) : (s.after lib server c).Placed where
  phased := step_phased hlib hguard h.phased
  returned := step_returned hlib hguard h.returned
  handled := step_handled hlib hguard h.handled

theorem workersPlaced (hlib : lib.StopsRun) (h : (threads lib server m).run l = some s) :
    s.Placed := by
  refine (threads lib server m).run_history (I := fun _ s ↦ s.Placed) ?_ ?_ h
  · intro l s c s' hstep hplaced
    obtain ⟨-, hguard, rfl⟩ := workers_step_cases hstep
    exact step_workersPlaced hlib hguard hplaced
  · refine ⟨⟨Nat.zero_le _, fun _ ↦ rfl, ?_, Nat.zero_le _, ?_, ?_, ?_⟩, ⟨?_, ?_⟩, ?_⟩ <;>
      simp [threads, Workers.initial, RunAt.phase, Workers.Handled]

/-- **Who may call the handler.**  It is there for as long as a thread may call it. -/
theorem Workers.Placed.alive (h : s.Placed) {r : Runner m} (hr : s.InRun r) :
    2 ≤ s.run.phase ∧ s.run ≠ .finished := by
  obtain ⟨hphased, hreturned, -⟩ := h
  cases r with
  | none =>
    have hrun : s.run = .serving := hr
    rw [hrun]
    decide
  | some i =>
    obtain ⟨hstarted, hnot⟩ := hr
    refine ⟨?_, fun hfinished ↦ ?_⟩
    · by_contra hphase
      have hnone := hphased.started_none (by omega)
      omega
    · have hjoined := hphased.joined_all (by rw [hfinished]; rfl)
      have hall := hreturned.joined i (by omega)
      rw [hnot] at hall
      cases hall

/-! ## The requests -/

theorem answered_after : s.answered <+: (s.after lib server c).answered := by
  cases c with
  | respond r => exact List.prefix_append _ _
  | leave r => cases r <;> exact List.prefix_rfl
  | _ => exact List.prefix_rfl

theorem answered_run (h : (threads lib server m).runFrom (some s) l = some s') :
    s.answered <+: s'.answered := by
  refine (threads lib server m).runFrom_history (m := [])
    (I := fun _ s' ↦ s.answered <+: s'.answered) ?_ List.prefix_rfl h
  intro l s₁ c s₂ hstep hstart
  obtain ⟨-, -, rfl⟩ := workers_step_cases hstep
  exact hstart.trans answered_after

/-- A thread that has taken up a request has answered it before it is idle again. -/
theorem respond_of_handling {r : Runner m} {request : HttpRequest}
    (h : (threads lib server m).runFrom (some s) l = some s') (hr : s.handling r = some request)
    (hidle : s'.handling r = none) : ∃ before after response, l = before ++ .respond r :: after ∧
      (∀ request', .accept r request' ∉ before) ∧ .respond r ∉ before ∧
      handlerResponse lib server request = some response ∧ (request, response) ∈ s'.answered := by
  induction l generalizing s with
  | nil =>
    obtain rfl : s = s' := Option.some.inj h
    rw [hr] at hidle
    cases hidle
  | cons c l ih =>
    obtain ⟨s₁, hstep, hrest⟩ := (threads lib server m).runFrom_cons_eq_some h
    obtain ⟨-, hguard, rfl⟩ := workers_step_cases hstep
    by_cases hc : c = .respond r
    · subst hc
      rw [Workers.Guard, hr, Option.bind_some] at hguard
      obtain ⟨response, hanswer⟩ := Option.isSome_iff_exists.mp hguard
      refine ⟨[], l, response, rfl, by simp, by simp, hanswer, (answered_run hrest).subset ?_⟩
      simp [Workers.after, Workers.due, hr, hanswer]
    · have haccept (request' : HttpRequest) : c ≠ .accept r request' := by
        rintro rfl
        rw [hguard.2] at hr
        cases hr
      obtain ⟨before, after, response, rfl, hno, hno', hanswer, hmem⟩ :=
        ih hrest ((handling_after haccept hc).trans hr)
      refine ⟨c :: before, after, response, rfl, fun request' ↦ ?_, ?_, hanswer, hmem⟩
      · simpa using ⟨Ne.symm (haccept request'), hno request'⟩
      · simpa using ⟨Ne.symm hc, hno'⟩

/-- The server is asked to stop before its thread ends. -/
theorem stop_mem_iff (h : (threads lib server m).run l = some s) :
    s.stopRequested = true ↔ .stop ∈ l := by
  refine (threads lib server m).run_history
    (I := fun l s ↦ s.stopRequested = true ↔ .stop ∈ l) ?_ (by simp [threads, Workers.initial]) h
  intro l s c s' hstep hiff
  obtain ⟨-, -, rfl⟩ := workers_step_cases hstep
  cases c with
  | stop => simp [Workers.after]
  | leave r => cases r <;> simpa [Workers.after] using hiff
  | _ => simpa [Workers.after] using hiff

/-- The thread of `run` has ended when `join` returns, and for good. -/
theorem finished_of_join (h : (threads lib server m).run l = some s) (hjoin : .join ∈ l) :
    s.run = .finished := by
  have hfinal : .join ∈ l → s.run = .finished := by
    refine (threads lib server m).run_history
      (I := fun l s ↦ .join ∈ l → s.run = .finished) ?_ (by simp) h
    intro l s c s' hstep hfinished hmem
    obtain ⟨-, hguard, rfl⟩ := workers_step_cases hstep
    by_cases hc : c = .join
    · subst hc
      exact hguard
    · have hrun := hfinished (by simpa [Ne.symm hc] using hmem)
      cases c with
      | start | create | launch | enter | reap | finish | fail =>
        simp [Workers.Guard, hrun] at hguard
      | leave r => cases r <;> simp_all [Workers.Guard, Workers.InRun, Workers.after]
      | _ => exact hrun
  exact hfinal hjoin

/-- **What `join` waits for**, if `http_server::run` returns as documented.  A thread is in
`server_->run()`, where it may call the handler, only while the handler is there.  When `join` has
returned, no thread is, the server was asked to stop, and every request that was taken up has been
answered, by the thread that took it up and before it took up another. -/
theorem threads_join (lib : HttpLib) (hlib : lib.StopsRun) (server : RpcBase) (m : Nat)
    (l : List (WorkersEvent m)) (s : Workers m) (h : (threads lib server m).run l = some s) :
    (∀ r, s.handling r ≠ none → s.InRun r) ∧
    (∀ r, s.InRun r → 2 ≤ s.run.phase ∧ s.run ≠ .finished) ∧
    (.join ∈ l → (∀ r, ¬ s.InRun r) ∧ .stop ∈ l ∧
      ∀ before r request after, l = before ++ .accept r request :: after →
        ∃ between rest response, after = between ++ .respond r :: rest ∧
          (∀ request', .accept r request' ∉ between) ∧ .respond r ∉ between ∧
          handlerResponse lib server request = some response ∧
          (request, response) ∈ s.answered) := by
  have hplaced := workersPlaced hlib h
  refine ⟨hplaced.handled, fun r hr ↦ hplaced.alive hr, fun hjoin ↦ ?_⟩
  have hfinished := finished_of_join h hjoin
  have hnone (r : Runner m) : ¬ s.InRun r := fun hr ↦ (hplaced.alive hr).2 hfinished
  refine ⟨hnone, ?_, ?_⟩
  · exact (stop_mem_iff h).mp (hplaced.phased.stop_left (by rw [hfinished]; decide))
  · rintro before r request after rfl
    obtain ⟨s₁, s₂, -, hstep, hrest⟩ := (threads lib server m).run_split h
    obtain ⟨-, -, rfl⟩ := workers_step_cases hstep
    refine respond_of_handling hrest (by simp [Workers.after]) ?_
    by_contra hbusy
    exact hnone r (hplaced.handled r hbusy)

theorem plainLib_stopsRun : plainLib.StopsRun where
  only := by decide
  returns := rfl

/-- `GET /test` -/
def testRequest : HttpRequest := ⟨"GET", "/test", [], ""⟩

/-- Two threads.  The second one takes up a request before the first one has called
`server_->run()`, and is still in the handler when the server is asked to stop. -/
def lateAnswer : List (WorkersEvent 1) :=
  [.start, .create, .launch, .accept (some 0) testRequest, .enter, .stop, .leave none,
    .respond (some 0), .leave (some 0), .reap, .finish, .join]

theorem threads_join_lateAnswer : ∃ between rest response,
    lateAnswer.drop 4 = between ++ .respond (some 0) :: rest ∧
      handlerResponse plainLib (rpc true) testRequest = some response := by
  obtain ⟨-, -, hjoin⟩ := threads_join plainLib plainLib_stopsRun (rpc true) 1 lateAnswer _ rfl
  obtain ⟨-, -, hanswered⟩ := hjoin (by simp [lateAnswer])
  obtain ⟨between, rest, response, hsplit, -, -, hresponse, -⟩ :=
    hanswered [.start, .create, .launch] (some 0) testRequest (lateAnswer.drop 4) rfl
  exact ⟨between, rest, response, hsplit, hresponse⟩

/-! ## Shutting down -/

/-- A step towards the end of `run`. -/
def WorkersEvent.isShutdown : WorkersEvent m → Bool
  | .start | .create | .launch | .enter | .respond _ | .leave _ | .reap | .finish => true
  | .accept _ _ | .stop | .join | .fail => false

def WorkersEvent.isAccept : WorkersEvent m → Bool
  | .accept _ _ => true
  | _ => false

/-- A thread that is in `server_->run()` can go on. -/
theorem runner_enabled (hlib : lib.StopsRun)
    (hanswer : ∀ request, (handlerResponse lib server request).isSome = true)
    (hstop : s.stopRequested = true) {r : Runner m} (hr : s.InRun r) :
    ∃ c : WorkersEvent m, c.isShutdown = true ∧ s.Guard lib server c := by
  cases hhandling : s.handling r with
  | none =>
    refine ⟨.leave r, rfl, hr, ?_⟩
    rw [hstop, hhandling]
    exact hlib.returns
  | some request =>
    refine ⟨.respond r, rfl, ?_⟩
    rw [Workers.Guard, hhandling]
    exact hanswer request

/-- There is a next step until `run` has returned. -/
theorem shutdown_enabled (hlib : lib.StopsRun)
    (hanswer : ∀ request, (handlerResponse lib server request).isSome = true) (h : s.Placed)
    (hstop : s.stopRequested = true) :
    s.run = .finished ∨ ∃ c : WorkersEvent m, c.isShutdown = true ∧ s.Guard lib server c := by
  obtain ⟨hphased, hreturned, -⟩ := h
  have hcreated := hphased.stop_created hstop
  cases hrun : s.run with
  | absent | creating =>
    rw [hrun] at hcreated
    simp [RunAt.phase] at hcreated
  | starting =>
    obtain hlt | heq := Nat.lt_or_eq_of_le hphased.started_le
    · exact Or.inr ⟨.launch, rfl, hrun, hlt⟩
    · exact Or.inr ⟨.enter, rfl, hrun, heq⟩
  | serving => exact Or.inr (runner_enabled hlib hanswer hstop (r := none) hrun)
  | joining =>
    obtain hlt | heq := Nat.lt_or_eq_of_le hphased.joined_le
    · cases hleft : s.returned ⟨s.joined, hlt⟩ with
      | true => exact Or.inr ⟨.reap, rfl, hrun, ⟨s.joined, hlt⟩, rfl, hleft⟩
      | false =>
        have hstarted := hphased.started_all (by rw [hrun]; decide)
        exact Or.inr (runner_enabled hlib hanswer hstop (r := some ⟨s.joined, hlt⟩)
          ⟨hlt.trans_eq hstarted.symm, hleft⟩)
    · exact Or.inr ⟨.finish, rfl, hrun, heq⟩
  | finished => exact Or.inl rfl

/-- A sum over the threads, when one of them changes. -/
theorem sum_update {ι α : Type} [Fintype ι] [DecidableEq ι] (g : α → Nat) (f : ι → α) (i : ι)
    (a : α) : (∑ j, g (Function.update f i a j)) + g (f i) = (∑ j, g (f j)) + g a := by
  have hcomp : ∀ j, g (Function.update f i a j) = Function.update (g ∘ f) i (g a) j := fun j ↦ by
    rw [← Function.comp_update]
    rfl
  rw [Finset.sum_congr rfl fun j _ ↦ hcomp j, Finset.sum_update_of_mem (Finset.mem_univ i),
    ← Finset.sum_sdiff (Finset.subset_univ {i}), Finset.sum_singleton]
  simp only [Function.comp_apply]
  omega

/-- The steps that are left until `run` has returned, if no more requests come in. -/
def Workers.left (s : Workers m) : Nat :=
  (5 - s.run.phase) + (m - s.started) + (m - s.joined) + (∑ i, (!s.returned i).toNat) +
    ∑ r, (s.handling r).isSome.toNat

theorem step_workersLeft (hguard : s.Guard lib server c) :
    (s.after lib server c).left + c.isShutdown.toNat ≤ s.left + c.isAccept.toNat := by
  have hshutdown : c.isShutdown.toNat ≤ 1 := Bool.toNat_le _
  cases c with
  | start | create =>
    simp only [Workers.Guard] at hguard
    simp only [Workers.left, Workers.after, hguard, RunAt.phase]
    omega
  | launch =>
    have hlt := hguard.2
    simp only [Workers.left, Workers.after]
    omega
  | enter | finish =>
    simp only [Workers.Guard] at hguard
    simp only [Workers.left, Workers.after, hguard.1, RunAt.phase]
    omega
  | accept r request =>
    have hsum := sum_update (fun o : Option HttpRequest ↦ o.isSome.toNat) s.handling r
      (some request)
    simp only [hguard.2, Option.isSome_none, Option.isSome_some, Bool.toNat_false,
      Bool.toNat_true] at hsum
    simp only [Workers.left, Workers.after, WorkersEvent.isShutdown, WorkersEvent.isAccept,
      Bool.toNat_false, Bool.toNat_true]
    omega
  | respond r =>
    have hsum := sum_update (fun o : Option HttpRequest ↦ o.isSome.toNat) s.handling r none
    cases hr : s.handling r with
    | none =>
      rw [Workers.Guard, hr] at hguard
      cases hguard
    | some request =>
      simp only [hr, Option.isSome_none, Option.isSome_some, Bool.toNat_false,
        Bool.toNat_true] at hsum
      simp only [Workers.left, Workers.after, WorkersEvent.isShutdown, WorkersEvent.isAccept,
        Bool.toNat_false, Bool.toNat_true]
      omega
  | leave r =>
    cases r with
    | none =>
      have hrun : s.run = .serving := hguard.1
      simp only [Workers.left, Workers.after, hrun, RunAt.phase]
      omega
    | some i =>
      have hsum := sum_update (fun b ↦ (!b).toNat) s.returned i true
      simp only [hguard.1.2, Bool.not_true, Bool.not_false, Bool.toNat_false,
        Bool.toNat_true] at hsum
      simp only [Workers.left, Workers.after, WorkersEvent.isShutdown, WorkersEvent.isAccept,
        Bool.toNat_false, Bool.toNat_true]
      omega
  | reap =>
    obtain ⟨-, i, hi, -⟩ := hguard
    have hlt : s.joined < m := hi ▸ i.isLt
    simp only [Workers.left, Workers.after, WorkersEvent.isShutdown, WorkersEvent.isAccept,
      Bool.toNat_false, Bool.toNat_true]
    omega
  | _ => exact Nat.le_refl _

theorem workersLeft_of_step (h : s.step lib server c = some s') :
    s'.left + c.isShutdown.toNat ≤ s.left + c.isAccept.toNat := by
  obtain ⟨-, hguard, rfl⟩ := workers_step_cases h
  exact step_workersLeft hguard

theorem left_le (h : 2 ≤ s.run.phase) : s.left ≤ 4 * (m + 1) := by
  have hreturned : (∑ i, (!s.returned i).toNat) ≤ m := by
    have hle := Finset.sum_le_card_nsmul Finset.univ (fun i ↦ (!s.returned i).toNat) 1
      fun i _ ↦ Bool.toNat_le _
    simpa using hle
  have hhandling : (∑ r, (s.handling r).isSome.toNat) ≤ m + 1 := by
    have hle := Finset.sum_le_card_nsmul Finset.univ (fun r ↦ (s.handling r).isSome.toNat) 1
      fun r _ ↦ Bool.toNat_le _
    simpa using hle
  rw [Workers.left]
  omega

/-- **How a server shuts down**, if `http_server::run` returns as documented and the handler returns
on every request.  Once it was asked to stop, and unless a thread has thrown, some thread can go on
until `run` has returned; and this takes no more than four steps for each thread, and one for each
request that is still taken up. -/
theorem threads_shutdown (lib : HttpLib) (hlib : lib.StopsRun) (server : RpcBase) (m : Nat)
    (hanswer : ∀ request, (handlerResponse lib server request).isSome = true)
    (l : List (WorkersEvent m)) (s : Workers m) (h : (threads lib server m).run l = some s)
    (hstop : .stop ∈ l) :
    (s.aborted = false → s.run ≠ .finished →
      ∃ c : WorkersEvent m, c.isShutdown = true ∧ (s.step lib server c).isSome = true) ∧
    ∀ before after, l = before ++ .stop :: after →
      after.countP WorkersEvent.isShutdown ≤ 4 * (m + 1) + after.countP WorkersEvent.isAccept := by
  refine ⟨fun haborted hrun ↦ ?_, ?_⟩
  · obtain hfinished | ⟨c, hc, hguard⟩ :=
      shutdown_enabled hlib hanswer (workersPlaced hlib h) ((stop_mem_iff h).mpr hstop)
    · exact absurd hfinished hrun
    · exact ⟨c, hc, by rw [Workers.step, if_pos ⟨haborted, hguard⟩]; rfl⟩
  · rintro before after rfl
    obtain ⟨s₁, s₂, -, hstep, hrest⟩ := (threads lib server m).run_split h
    obtain ⟨-, hguard, rfl⟩ := workers_step_cases hstep
    have hrank := (threads lib server m).countP_le_rank (I := fun _ ↦ True)
      (p := WorkersEvent.isShutdown) (q := WorkersEvent.isAccept)
      (fun s c s' hstep _ ↦ ⟨trivial, workersLeft_of_step hstep⟩) hrest trivial
    have hle : (s₁.after lib server .stop).left ≤ 4 * (m + 1) := left_le hguard
    omega

end Run

/-- The handler of the program returns on every request. -/
theorem handlerResponse_rpc (lib : HttpLib) (allowCors : Bool) (request : HttpRequest) :
    (handlerResponse lib (rpc allowCors) request).isSome = true := by
  obtain ⟨response, hrun⟩ := handle_rpc lib allowCors request ⟨0, [], ""⟩
  rw [handlerResponse, hrun]
  rfl

theorem threads_shutdown_lateAnswer : (lateAnswer.drop 6).countP WorkersEvent.isShutdown
    ≤ 4 * (1 + 1) + (lateAnswer.drop 6).countP WorkersEvent.isAccept :=
  (threads_shutdown plainLib plainLib_stopsRun (rpc true) 1 (handlerResponse_rpc plainLib true)
    lateAnswer _ rfl (by simp [lateAnswer])).2 (lateAnswer.take 5) _ rfl

end Rpc
end XaMain
