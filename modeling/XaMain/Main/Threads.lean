import XaMain.Lib.Protocol
import XaMain.Main.Options
import XaMain.Rpc.Routing
import Mathlib.Logic.Function.Basic

/-!
# The main loop and its threads

`capture_main_loop` starts the server, if it is enabled, waits until `is_running` is false, and
stops the server again.  The server has a thread of its own, and what clears `is_running` is the
handler of `SIGTERM`: the signal is delivered to one of the threads, which is interrupted, clears
`is_running`, and calls `exit`; it does not go back to what it was doing.

`captureMainLoop` is the step relation of the threads, as a `Protocol`.  A run is the list of the
steps that were taken, in any order that the threads and the signals may take them.  Beside the two
threads of the program there may be threads of the libraries, and the signal may be delivered to one
of them.  When `http_server::run` returns is left to the library.

* `captureMainLoop_ends` — how a process can end.  If the signal is never delivered to a thread of a
  library, the process never ends with the status 0: whoever has cleared `is_running` is the one
  thread that `join` waits for, or the main thread itself.
* `captureMainLoop_stop` — when `stop` finds no server to stop, which is undefined behaviour.
* `Placed` — where the threads can be, and what they have done: in particular, every request is
  answered with the settings the program was started with, though `allow_cors_` is set by one thread
  and read by another.
-/

set_option autoImplicit false

namespace XaMain
namespace Main

open Rpc Options

/-! ## The threads -/

/-- A thread that `SIGTERM` may be delivered to. -/
inductive Thread where
  /-- It runs `capture_main_loop`. -/
  | main
  /-- It runs `rpc_base::run`, and `rpc_base::start` starts it. -/
  | server
  /-- A thread of a library. -/
  | library
  deriving DecidableEq

/-- How far a thread is in `do_terminate`. -/
inductive Terminating where
  /-- It is not in it. -/
  | no
  /-- The signal was delivered to it. -/
  | entered
  /-- It has cleared `is_running`, and is in `exit`. -/
  | exiting
  deriving DecidableEq

/-- Where `capture_main_loop` is. -/
inductive MainAt where
  /-- `rpc` is constructed, and `set_allow_cors` is about to be called. -/
  | constructed
  /-- `start` is about to be called. -/
  | configured
  /-- It is about to read `is_running`. -/
  | testing
  /-- It is in `sleep_for`. -/
  | sleeping
  /-- It has left the loop, and `stop` is about to be called. -/
  | stopping
  /-- It is in `join`. -/
  | joining
  /-- It is over, and `main` is about to return. -/
  | returning
  deriving DecidableEq

/-- Where `rpc_base::run` is. -/
inductive ServerAt where
  /-- The thread is not started. -/
  | absent
  /-- `server_` is about to be created. -/
  | creating
  /-- `server_->run()` is about to be called. -/
  | created
  /-- It is in `server_->run()`. -/
  | serving
  /-- The thread has ended. -/
  | finished
  deriving DecidableEq

/-- How the process has ended. -/
inductive Ending where
  /-- With this status. -/
  | exited (status : Nat)
  /-- `stop` was called while `server_` was null. -/
  | crashed
  /-- The thread of the server threw, and nothing catches it. -/
  | aborted
  deriving DecidableEq

/-- The threads and what they share. -/
structure State where
  /-- `is_running` -/
  isRunning : Bool
  /-- `allow_cors_` -/
  allowCors : Bool
  /-- `server_->stop()` was called. -/
  stopRequested : Bool
  main : MainAt
  server : ServerAt
  terminating : Thread → Terminating
  ending : Option Ending
  /-- The address and the port that `server_` was created with. -/
  listening : Option (String × String)
  /-- The requests that were answered, with the responses. -/
  served : List (HttpRequest × HttpResponse)

/-- A step. -/
inductive Event where
  /-- `rpc.set_allow_cors(options::control_allow_cors);` -/
  | setAllowCors
  /-- `rpc.start();` -/
  | start
  /-- The main thread reads `is_running`. -/
  | test
  /-- `sleep_for` returns. -/
  | wake
  /-- `rpc.stop();` -/
  | stop
  /-- `rpc.join();` returns. -/
  | join
  /-- `main` returns, and the process ends. -/
  | leave
  /-- `server_` is created. -/
  | create
  /-- `server_->run()` is called. -/
  | run
  /-- The server answers a request. -/
  | serve (request : HttpRequest)
  /-- `server_->run()` returns, and the thread ends. -/
  | finish
  /-- The thread of the server throws. -/
  | fail
  /-- `SIGTERM` is delivered to a thread. -/
  | take (t : Thread)
  /-- `is_running = false;` -/
  | clear (t : Thread)
  /-- `exit(1)` ends the process. -/
  | exit (t : Thread)

/-- Is `server_` set? -/
def ServerAt.hasServer : ServerAt → Bool
  | .absent | .creating => false
  | .created | .serving | .finished => true

/-- Is the thread of the server there? -/
def ServerAt.isAlive : ServerAt → Bool
  | .absent | .finished => false
  | .creating | .created | .serving => true

/-- When a step can be taken.  A thread that is in `do_terminate` takes no other steps. -/
def State.Guard (lib : HttpLib) (s : State) : Event → Prop
  | .setAllowCors => s.terminating .main = .no ∧ s.main = .constructed
  | .start => s.terminating .main = .no ∧ s.main = .configured
  | .test => s.terminating .main = .no ∧ s.main = .testing
  | .wake => s.terminating .main = .no ∧ s.main = .sleeping
  | .stop => s.terminating .main = .no ∧ s.main = .stopping
  | .join => s.terminating .main = .no ∧ s.main = .joining ∧ s.server = .finished
  | .leave => s.terminating .main = .no ∧ s.main = .returning
  | .create => s.terminating .server = .no ∧ s.server = .creating
  | .run => s.terminating .server = .no ∧ s.server = .created
  | .serve _ => s.terminating .server = .no ∧ s.server = .serving
  | .finish => s.terminating .server = .no ∧ s.server = .serving ∧
    lib.runReturns s.stopRequested false = true
  | .fail => s.terminating .server = .no ∧ s.server.isAlive = true
  | .take t => s.terminating t = .no ∧ (t = .server → s.server.isAlive = true)
  | .clear t => s.terminating t = .entered
  | .exit t => s.terminating t = .exiting

instance (lib : HttpLib) (s : State) (c : Event) : Decidable (s.Guard lib c) :=
  match c with
  | .setAllowCors | .start | .test | .wake | .stop | .leave | .create | .run | .serve _ | .fail
  | .take _ => inferInstanceAs (Decidable (_ ∧ _))
  | .join | .finish => inferInstanceAs (Decidable (_ ∧ _ ∧ _))
  | .clear _ | .exit _ => inferInstanceAs (Decidable (_ = _))

section Steps

variable (lib : HttpLib) (options : Settings)

/-- The response a request is answered with. -/
def respond (allowCors : Bool) (request : HttpRequest) : HttpResponse :=
  (handle lib (rpc allowCors) request ⟨0, [], ""⟩).2

/-- The state after a step. -/
def State.after (s : State) : Event → State
  | .setAllowCors => { s with main := .configured, allowCors := options.controlAllowCors }
  | .start => { s with main := .testing, server := .creating }
  | .test => { s with main :=
      if s.isRunning then .sleeping
      else if options.controlEnabled then .stopping
      else .returning }
  | .wake => { s with main := .testing }
  | .stop =>
    if s.server.hasServer then { s with main := .joining, stopRequested := true }
    else { s with ending := some .crashed }
  | .join => { s with main := .returning }
  | .leave => { s with ending := some (.exited 0) }
  | .create => { s with
      server := .created
      listening := some (options.controlListenAddress, toString options.controlListenPort.toNat) }
  | .run => { s with server := .serving }
  | .serve request =>
    { s with served := s.served ++ [(request, respond lib s.allowCors request)] }
  | .finish => { s with server := .finished }
  | .fail => { s with ending := some .aborted }
  | .take t => { s with terminating := Function.update s.terminating t .entered }
  | .clear t =>
    { s with isRunning := false, terminating := Function.update s.terminating t .exiting }
  | .exit _ => { s with ending := some (.exited 1) }

/-- A step can be taken until the process has ended. -/
def State.step (s : State) (c : Event) : Option State :=
  if s.ending.isNone ∧ s.Guard lib c then some (s.after lib options c) else none

/-- The state in which `rpc` was constructed. -/
def State.start : State where
  isRunning := true
  allowCors := false
  stopRequested := false
  main := if options.controlEnabled then .constructed else .testing
  server := .absent
  terminating _ := .no
  ending := none
  listening := none
  served := []

/-- `capture_main_loop` -/
def captureMainLoop : Protocol State Event := ⟨State.start options, State.step lib options⟩

end Steps

section Run

variable {lib : HttpLib} {options : Settings} {s s' : State} {c : Event} {l : List Event}

theorem step_cases (h : s.step lib options c = some s') :
    s.ending = none ∧ s.Guard lib c ∧ s' = s.after lib options c := by
  obtain ⟨⟨hending, hguard⟩, heq⟩ := Option.ite_none_right_eq_some.mp h
  exact ⟨Option.isNone_iff_eq_none.mp hending, hguard, (Option.some.inj heq).symm⟩

/-! ## The signals -/

variable (lib options s) in
/-- Only signals interrupt a thread and clear `is_running`. -/
theorem after_frame (htake : ∀ t, c ≠ .take t) (hclear : ∀ t, c ≠ .clear t) :
    (s.after lib options c).terminating = s.terminating ∧
      (s.after lib options c).isRunning = s.isRunning := by
  cases c with
  | take t => exact absurd rfl (htake t)
  | clear t => exact absurd rfl (hclear t)
  | stop =>
    rw [State.after]
    split_ifs
    · exact ⟨rfl, rfl⟩
    · exact ⟨rfl, rfl⟩
  | _ => exact ⟨rfl, rfl⟩

/-- **The signals so far, and where the threads are in `do_terminate`.** -/
structure Signalled (l : List Event) (s : State) : Prop where
  take_iff : ∀ t, .take t ∈ l ↔ s.terminating t ≠ .no
  clear_iff : ∀ t, .clear t ∈ l ↔ s.terminating t = .exiting
  stopped_iff : s.isRunning = false ↔ ∃ t, .clear t ∈ l

theorem step_signalled (l : List Event) (s : State) (c : Event) (s' : State)
    (hstep : s.step lib options c = some s') (h : Signalled l s) : Signalled (l ++ [c]) s' := by
  obtain ⟨-, hguard, rfl⟩ := step_cases hstep
  by_cases hc : (∀ t, c ≠ .take t) ∧ ∀ t, c ≠ .clear t
  · obtain ⟨hterminating, hrunning⟩ := after_frame lib options s hc.1 hc.2
    have htake (t : Thread) : .take t ∈ l ++ [c] ↔ .take t ∈ l := by
      simp [Ne.symm (hc.1 t)]
    have hclear (t : Thread) : .clear t ∈ l ++ [c] ↔ .clear t ∈ l := by
      simp [Ne.symm (hc.2 t)]
    constructor
    · simpa only [hterminating, htake] using h.take_iff
    · simpa only [hterminating, hclear] using h.clear_iff
    · simpa only [hrunning, hclear] using h.stopped_iff
  cases c with
  | take t =>
    have hno : s.terminating t = .no := hguard.1
    constructor
    · intro t'
      by_cases ht : t' = t
      · simp [State.after, ht]
      · simpa [State.after, ht] using h.take_iff t'
    · intro t'
      by_cases ht : t' = t
      · subst ht
        have hclear : .clear t' ∉ l := by simp [h.clear_iff, hno]
        simp [State.after, hclear]
      · simpa [State.after, ht] using h.clear_iff t'
    · simpa [State.after] using h.stopped_iff
  | clear t =>
    have hentered : s.terminating t = .entered := hguard
    constructor
    · intro t'
      by_cases ht : t' = t
      · subst ht
        have htake : .take t' ∈ l := by simp [h.take_iff, hentered]
        simp [State.after, htake]
      · simpa [State.after, ht] using h.take_iff t'
    · intro t'
      by_cases ht : t' = t
      · simp [State.after, ht]
      · simpa [State.after, ht] using h.clear_iff t'
    · exact ⟨fun _ ↦ ⟨t, by simp⟩, fun _ ↦ rfl⟩
  | _ => exact absurd ⟨by simp, by simp⟩ hc

theorem signalled (h : (captureMainLoop lib options).run l = some s) : Signalled l s := by
  refine (captureMainLoop lib options).run_history step_signalled ⟨?_, ?_, ?_⟩ h
  · simp [captureMainLoop, State.start]
  · simp [captureMainLoop, State.start]
  · simp [captureMainLoop, State.start]

/-- No thread comes back from `exit`. -/
theorem exiting_stays (hguard : s.Guard lib c) {t : Thread} (ht : s.terminating t = .exiting) :
    (s.after lib options c).terminating t = .exiting := by
  cases c with
  | take t' =>
    have hne : t ≠ t' := by
      rintro rfl
      rw [hguard.1] at ht
      cases ht
    simpa [State.after, hne] using ht
  | clear t' =>
    by_cases hne : t = t'
    · simp [State.after, hne]
    · simpa [State.after, hne] using ht
  | _ => rwa [(after_frame lib options s (by simp) (by simp)).1]

/-! ## Where the threads are -/

/-- It has left the loop. -/
def MainAt.hasLeft : MainAt → Bool
  | .stopping | .joining | .returning => true
  | .constructed | .configured | .testing | .sleeping => false

/-- It has not started the server. -/
def MainAt.isStarting : MainAt → Bool
  | .constructed | .configured => true
  | .testing | .sleeping | .stopping | .joining | .returning => false

/-- **Where the threads can be.** -/
structure Placed (lib : HttpLib) (options : Settings) (s : State) : Prop where
  stopped : s.isRunning = false → ∃ t, s.terminating t = .exiting
  /-- The main thread leaves the loop only if another thread has cleared `is_running`. -/
  left : s.main.hasLeft = true → ∃ t, t ≠ .main ∧ s.terminating t = .exiting
  unstarted : s.main.isStarting = true → s.server = .absent
  configured : s.main = .configured → s.allowCors = options.controlAllowCors
  allowCors : s.server ≠ .absent → s.allowCors = options.controlAllowCors
  /-- The thread of the server does not end while it is in `do_terminate`. -/
  alive : s.terminating .server ≠ .no → s.server.isAlive = true
  disabled : options.controlEnabled = false → s.server = .absent ∧ s.main.isStarting = false
  joined : options.controlEnabled = true → s.main = .returning → s.server = .finished
  exited : ∀ n, s.ending = some (.exited n) →
    n = 0 ∧ s.terminating .library = .exiting ∨ n = 1 ∧ ∃ t, s.terminating t = .exiting
  listening : ∀ a, s.listening = some a → options.controlEnabled = true ∧
    a = (options.controlListenAddress, toString options.controlListenPort.toNat)
  served : ∀ p ∈ s.served,
    options.controlEnabled = true ∧ p.2 = respond lib options.controlAllowCors p.1

namespace Placed

variable (h : Placed lib options s)
include h

/-- The server is started only if it is enabled, and by a main thread that is through with it. -/
theorem of_isAlive (halive : s.server.isAlive = true) :
    s.main.isStarting = false ∧ options.controlEnabled = true ∧ s.server ≠ .absent := by
  have hpresent : s.server ≠ .absent := fun hno ↦ by
    rw [hno] at halive
    cases halive
  refine ⟨?_, ?_, hpresent⟩
  · cases hstarting : s.main.isStarting with
    | false => rfl
    | true => exact absurd (h.unstarted hstarting) hpresent
  · cases henabled : options.controlEnabled with
    | false => exact absurd (h.disabled henabled).1 hpresent
    | true => rfl

/-- Nor is anything started if it is not enabled. -/
theorem of_isStarting (hstarting : s.main.isStarting = true) : options.controlEnabled = true := by
  cases henabled : options.controlEnabled with
  | false =>
    rw [(h.disabled henabled).2] at hstarting
    cases hstarting
  | true => rfl

/-- The step `c` of the server's thread, which leads it to `place`. -/
theorem move {place : ServerAt} (halive : s.server.isAlive = true) (hplace : place.isAlive = true)
    (hmain : s.main ≠ .returning) : Placed lib options { s with server := place } := by
  obtain ⟨hstarting, henabled, hpresent⟩ := h.of_isAlive halive
  exact { h with
    unstarted := fun hs ↦ absurd (hstarting.symm.trans hs) (by decide)
    allowCors := fun _ ↦ h.allowCors hpresent
    alive := fun _ ↦ hplace
    disabled := fun hno ↦ absurd (hno.symm.trans henabled) (by decide)
    joined := fun _ hm ↦ absurd hm hmain }

/-- The step of a main thread that is through with the start of the server, and goes to `place`. -/
theorem moveMain {place : MainAt} (hstarting : place.isStarting = false)
    (hleft : place.hasLeft = true → ∃ t, t ≠ .main ∧ s.terminating t = .exiting)
    (hjoined : options.controlEnabled = true → place = .returning → s.server = .finished) :
    Placed lib options { s with main := place } :=
  { h with
    left := hleft
    unstarted := fun hs ↦ absurd (hstarting.symm.trans hs) (by decide)
    configured := fun hplace ↦ by
      rw [show place = .configured from hplace] at hstarting
      cases hstarting
    disabled := fun hno ↦ ⟨(h.disabled hno).1, hstarting⟩
    joined := hjoined }

/-- After `capture_main_loop` there is no thread of the server. -/
theorem not_isAlive (hmain : s.main = .returning) : s.server.isAlive = false := by
  cases henabled : options.controlEnabled with
  | false =>
    rw [(h.disabled henabled).1]
    rfl
  | true =>
    rw [h.joined henabled hmain]
    rfl

/-! ### The steps of the main thread -/

theorem setAllowCors (hguard : s.Guard lib .setAllowCors) :
    Placed lib options (s.after lib options .setAllowCors) := by
  obtain ⟨-, hmain⟩ := hguard
  have hstarting : s.main.isStarting = true := by rw [hmain]; rfl
  exact { h with
    left := by simp [State.after, MainAt.hasLeft]
    unstarted := fun _ ↦ h.unstarted hstarting
    configured := fun _ ↦ rfl
    allowCors := fun _ ↦ rfl
    disabled := fun hno ↦ absurd (hno.symm.trans (h.of_isStarting hstarting)) (by decide)
    joined := by simp [State.after] }

theorem start (hguard : s.Guard lib .start) : Placed lib options (s.after lib options .start) := by
  obtain ⟨-, hmain⟩ := hguard
  have hstarting : s.main.isStarting = true := by rw [hmain]; rfl
  exact { h with
    left := by simp [State.after, MainAt.hasLeft]
    unstarted := by simp [State.after, MainAt.isStarting]
    configured := by simp [State.after]
    allowCors := fun _ ↦ h.configured hmain
    alive := fun _ ↦ rfl
    disabled := fun hno ↦ absurd (hno.symm.trans (h.of_isStarting hstarting)) (by decide)
    joined := by simp [State.after] }

/-- The main thread itself has not cleared `is_running` when it tests it. -/
theorem test (hguard : s.Guard lib .test) : Placed lib options (s.after lib options .test) := by
  have hleft : s.isRunning = false → ∃ t, t ≠ .main ∧ s.terminating t = .exiting := by
    intro hr
    obtain ⟨t, ht⟩ := h.stopped hr
    refine ⟨t, ?_, ht⟩
    rintro rfl
    rw [hguard.1] at ht
    cases ht
  rw [State.after]
  split_ifs with hr henabled
  · exact h.moveMain rfl (fun hplace ↦ by cases hplace) fun _ hplace ↦ by cases hplace
  · exact h.moveMain rfl (fun _ ↦ hleft (by simpa using hr)) fun _ hplace ↦ by cases hplace
  · exact h.moveMain rfl (fun _ ↦ hleft (by simpa using hr)) fun he _ ↦ absurd he henabled

theorem stop (hguard : s.Guard lib .stop) : Placed lib options (s.after lib options .stop) := by
  have hleft := h.left (by rw [hguard.2]; rfl)
  rw [State.after]
  split_ifs
  · have hjoining : Placed lib options { s with main := .joining } :=
      h.moveMain rfl (fun _ ↦ hleft) fun _ hplace ↦ by cases hplace
    exact { hjoining with }
  · exact { h with exited := by simp }

theorem join (hguard : s.Guard lib .join) : Placed lib options (s.after lib options .join) := by
  obtain ⟨-, hmain, hfinished⟩ := hguard
  exact h.moveMain rfl (fun _ ↦ h.left (by rw [hmain]; rfl)) fun _ _ ↦ hfinished

/-- Of the threads that may have cleared `is_running`, only one of a library can still be there. -/
theorem leave (hguard : s.Guard lib .leave) : Placed lib options (s.after lib options .leave) := by
  obtain ⟨-, hmain⟩ := hguard
  have hlibrary : s.terminating .library = .exiting := by
    obtain ⟨t, hne, ht⟩ := h.left (by rw [hmain]; rfl)
    cases t with
    | main => exact absurd rfl hne
    | server =>
      have halive := h.alive (by rw [ht]; decide)
      rw [h.not_isAlive hmain] at halive
      cases halive
    | library => exact ht
  refine { h with exited := fun n hn ↦ ?_ }
  obtain rfl : 0 = n := by simpa [State.after] using hn
  exact Or.inl ⟨rfl, hlibrary⟩

/-! ### The steps of the server's thread -/

theorem not_returning (halive : s.server.isAlive = true) : s.main ≠ .returning := fun hmain ↦ by
  rw [h.not_isAlive hmain] at halive
  cases halive

theorem create (hguard : s.Guard lib .create) :
    Placed lib options (s.after lib options .create) := by
  have halive : s.server.isAlive = true := by rw [hguard.2]; rfl
  refine { h.move halive rfl (h.not_returning halive) with listening := fun a ha ↦ ?_ }
  exact ⟨(h.of_isAlive halive).2.1, (Option.some.inj ha).symm⟩

theorem run (hguard : s.Guard lib .run) : Placed lib options (s.after lib options .run) := by
  have halive : s.server.isAlive = true := by rw [hguard.2]; rfl
  exact h.move halive rfl (h.not_returning halive)

theorem serve {request : HttpRequest} (hguard : s.Guard lib (.serve request)) :
    Placed lib options (s.after lib options (.serve request)) := by
  obtain ⟨-, henabled, hpresent⟩ := h.of_isAlive (by rw [hguard.2]; rfl)
  refine { h with served := fun p hp ↦ ?_ }
  rcases List.mem_append.mp hp with hp | hp
  · exact h.served p hp
  · rw [List.mem_singleton.mp hp, ← h.allowCors hpresent]
    exact ⟨henabled, rfl⟩

theorem finish (hguard : s.Guard lib .finish) :
    Placed lib options (s.after lib options .finish) := by
  obtain ⟨hno, hserving, -⟩ := hguard
  obtain ⟨hstarting, henabled, hpresent⟩ := h.of_isAlive (by rw [hserving]; rfl)
  exact { h with
    unstarted := fun hs ↦ absurd (hstarting.symm.trans hs) (by decide)
    allowCors := fun _ ↦ h.allowCors hpresent
    alive := fun hterminating ↦ absurd hno hterminating
    disabled := fun hd ↦ absurd (hd.symm.trans henabled) (by decide)
    joined := fun _ _ ↦ rfl }

/-! ### The steps of `do_terminate` -/

theorem take {t : Thread} (hending : s.ending = none) (hguard : s.Guard lib (.take t)) :
    Placed lib options (s.after lib options (.take t)) := by
  have hstays {u : Thread} : s.terminating u = .exiting →
      (s.after lib options (.take t)).terminating u = .exiting := exiting_stays hguard
  refine { h with
    stopped := fun hr ↦ (h.stopped hr).imp fun _ ↦ hstays
    left := fun hl ↦ (h.left hl).imp fun _ ht ↦ ⟨ht.1, hstays ht.2⟩
    alive := fun hterminating ↦ ?_
    exited := by simp [State.after, hending] }
  by_cases ht : t = .server
  · exact hguard.2 ht
  · exact h.alive (by simpa [State.after, Ne.symm ht] using hterminating)

theorem clear {t : Thread} (hending : s.ending = none) (hguard : s.Guard lib (.clear t)) :
    Placed lib options (s.after lib options (.clear t)) := by
  have hentered : s.terminating t = .entered := hguard
  have hstays {u : Thread} : s.terminating u = .exiting →
      (s.after lib options (.clear t)).terminating u = .exiting := exiting_stays hguard
  refine { h with
    stopped := fun _ ↦ ⟨t, by simp [State.after]⟩
    left := fun hl ↦ (h.left hl).imp fun _ ht ↦ ⟨ht.1, hstays ht.2⟩
    alive := fun hterminating ↦ ?_
    exited := by simp [State.after, hending] }
  by_cases ht : t = .server
  · subst ht
    exact h.alive (by rw [hentered]; decide)
  · exact h.alive (by simpa [State.after, Ne.symm ht] using hterminating)

theorem exit {t : Thread} (hguard : s.Guard lib (.exit t)) :
    Placed lib options (s.after lib options (.exit t)) := by
  refine { h with exited := fun n hn ↦ ?_ }
  obtain rfl : 1 = n := by simpa [State.after] using hn
  exact Or.inr ⟨rfl, t, hguard⟩

end Placed

theorem step_placed (s : State) (c : Event) (s' : State)
    (hstep : s.step lib options c = some s') (h : Placed lib options s) :
    Placed lib options s' := by
  obtain ⟨hending, hguard, rfl⟩ := step_cases hstep
  cases c with
  | setAllowCors => exact h.setAllowCors hguard
  | start => exact h.start hguard
  | test => exact h.test hguard
  | wake =>
    exact h.moveMain rfl (fun hplace ↦ by cases hplace) fun _ hplace ↦ by cases hplace
  | stop => exact h.stop hguard
  | join => exact h.join hguard
  | leave => exact h.leave hguard
  | create => exact h.create hguard
  | run => exact h.run hguard
  | serve request => exact h.serve hguard
  | finish => exact h.finish hguard
  | fail => exact { h with exited := by simp [State.after] }
  | take t => exact h.take hending hguard
  | clear t => exact h.clear hending hguard
  | exit t => exact h.exit hguard

theorem start_placed : Placed lib options (State.start options) where
  stopped := by simp [State.start]
  left := by
    cases henabled : options.controlEnabled <;> simp [State.start, henabled, MainAt.hasLeft]
  unstarted _ := rfl
  configured := by cases henabled : options.controlEnabled <;> simp [State.start, henabled]
  allowCors := by simp [State.start]
  alive := by simp [State.start]
  disabled henabled := ⟨rfl, by simp [State.start, henabled, MainAt.isStarting]⟩
  joined henabled := by simp [State.start, henabled]
  exited := by simp [State.start]
  listening := by simp [State.start]
  served := by simp [State.start]

theorem placed (h : (captureMainLoop lib options).run l = some s) : Placed lib options s :=
  (captureMainLoop lib options).run_history (I := fun _ s ↦ Placed lib options s)
    (fun _ s c s' ↦ step_placed s c s') start_placed h

/-- The server is there once it was created. -/
theorem created_iff (h : (captureMainLoop lib options).run l = some s) :
    .create ∈ l ↔ s.server.hasServer = true := by
  refine ((captureMainLoop lib options).run_history (I := fun l s ↦ Placed lib options s ∧
    (.create ∈ l ↔ s.server.hasServer = true)) ?_ ⟨start_placed, ?_⟩ h).2
  · rintro l s c s' hstep ⟨hplaced, hcreated⟩
    refine ⟨step_placed s c s' hstep hplaced, ?_⟩
    obtain ⟨-, hguard, rfl⟩ := step_cases hstep
    cases c with
    | start =>
      obtain ⟨-, hmain⟩ := hguard
      rw [hplaced.unstarted (by rw [hmain]; rfl)] at hcreated
      simpa [State.after, ServerAt.hasServer] using hcreated
    | create => simp [State.after, ServerAt.hasServer]
    | run =>
      rw [hguard.2] at hcreated
      simpa [State.after, ServerAt.hasServer] using hcreated
    | finish =>
      rw [hguard.2.1] at hcreated
      simpa [State.after, ServerAt.hasServer] using hcreated
    | stop =>
      rw [State.after]
      split_ifs
      · simpa using hcreated
      · simpa using hcreated
    | _ => simpa [State.after] using hcreated
  · simp [captureMainLoop, State.start, ServerAt.hasServer]

/-! ## A thread that is interrupted -/

/-- The main thread has left the loop only if another thread was interrupted. -/
theorem other_of_left (h : (captureMainLoop lib options).run l = some s)
    (hleft : s.main.hasLeft = true) : .take .server ∈ l ∨ .take .library ∈ l := by
  obtain ⟨t, hne, ht⟩ := (placed h).left hleft
  have htake : .take t ∈ l := ((signalled h).take_iff t).mpr (by rw [ht]; decide)
  cases t with
  | main => exact absurd rfl hne
  | server => exact Or.inl htake
  | library => exact Or.inr htake

theorem other_of_stop (h : (captureMainLoop lib options).run l = some s) (hstop : .stop ∈ l) :
    .take .server ∈ l ∨ .take .library ∈ l := by
  obtain ⟨l₁, l₂, rfl⟩ := List.append_of_mem hstop
  obtain ⟨s₁, s₂, hrun, hstep, -⟩ := (captureMainLoop lib options).run_split h
  obtain ⟨-, ⟨-, hmain⟩, -⟩ := step_cases hstep
  exact (other_of_left hrun (by rw [hmain]; rfl)).imp (List.mem_append_left _)
    (List.mem_append_left _)

/-- The thread of the server does not end after it was interrupted, so if it is not there, it was a
thread of a library. -/
theorem library_of_left (h : (captureMainLoop lib options).run l = some s)
    (hleft : s.main.hasLeft = true) (hgone : s.server.isAlive = false) : .take .library ∈ l := by
  refine (other_of_left h hleft).resolve_left fun htake ↦ ?_
  have halive := (placed h).alive (((signalled h).take_iff _).mp htake)
  rw [hgone] at halive
  cases halive

theorem library_of_join (h : (captureMainLoop lib options).run l = some s) (hjoin : .join ∈ l) :
    .take .library ∈ l := by
  obtain ⟨l₁, l₂, rfl⟩ := List.append_of_mem hjoin
  obtain ⟨s₁, s₂, hrun, hstep, -⟩ := (captureMainLoop lib options).run_split h
  obtain ⟨-, ⟨-, hmain, hfinished⟩, -⟩ := step_cases hstep
  exact List.mem_append_left _ (library_of_left hrun (by rw [hmain]; rfl) (by rw [hfinished]; rfl))

theorem library_of_leave (h : (captureMainLoop lib options).run l = some s) (hleave : .leave ∈ l) :
    .take .library ∈ l := by
  obtain ⟨l₁, l₂, rfl⟩ := List.append_of_mem hleave
  obtain ⟨s₁, s₂, hrun, hstep, -⟩ := (captureMainLoop lib options).run_split h
  obtain ⟨-, ⟨-, hmain⟩, -⟩ := step_cases hstep
  exact List.mem_append_left _
    (library_of_left hrun (by rw [hmain]; rfl) ((placed hrun).not_isAlive hmain))

/-- Only `stop` without a server ends the process like that. -/
theorem stop_of_crashed (hending : s.ending = none)
    (hc : (s.after lib options c).ending = some .crashed) : c = .stop := by
  cases c with
  | stop => rfl
  | leave | fail | exit _ => simp [State.after] at hc
  | _ => simp [State.after, hending] at hc

theorem hasServer_of_crashed (hending : s.ending = none)
    (hc : (s.after lib options .stop).ending = some .crashed) : s.server.hasServer = false := by
  cases hserver : s.server.hasServer with
  | false => rfl
  | true => simp [State.after, hserver, hending] at hc

/-- In a run that ends like that, the server was not created. -/
theorem run_crashed (h : (captureMainLoop lib options).run l = some s)
    (hc : s.ending = some .crashed) : .stop ∈ l ∧ .create ∉ l := by
  rcases List.eq_nil_or_concat l with rfl | ⟨l₁, c, rfl⟩
  · obtain rfl := Option.some.inj h
    exact absurd hc (by simp [captureMainLoop, State.start])
  · rw [List.concat_eq_append] at h ⊢
    obtain ⟨s₁, s₂, hrun, hstep, hrest⟩ := (captureMainLoop lib options).run_split h
    obtain rfl : s₂ = s := Option.some.inj hrest
    obtain ⟨hending, -, rfl⟩ := step_cases hstep
    obtain rfl := stop_of_crashed hending hc
    have hno : .create ∉ l₁ := by
      rw [created_iff hrun, hasServer_of_crashed hending hc]
      decide
    exact ⟨by simp, by simpa using hno⟩

end Run

/-- **How the process ends**, in any order of the steps and with any signals.  Its status is 0 only
if a thread of a library has cleared `is_running`, and otherwise it is 1, and some thread has.  If
no thread of a library is interrupted, `join` never returns and neither does `main`, and without the
server the loop is not even left.  Without a signal it goes on for ever, unless the thread of the
server throws. -/
theorem captureMainLoop_ends (lib : HttpLib) (options : Settings) (l : List Event) (s : State)
    (h : (captureMainLoop lib options).run l = some s) :
    (∀ n, s.ending = some (.exited n) →
      n = 0 ∧ .clear .library ∈ l ∨ n = 1 ∧ ∃ t, .clear t ∈ l) ∧
    (.take .library ∉ l → .join ∉ l ∧ .leave ∉ l) ∧
    (.take .library ∉ l → options.controlEnabled = false → s.main.hasLeft = false) ∧
    ((∀ t, .take t ∉ l) →
      s.main.hasLeft = false ∧ (s.ending = none ∨ s.ending = some .aborted)) := by
  have hsignalled := signalled h
  have hplaced := placed h
  refine ⟨fun n hn ↦ ?_, fun hlib ↦ ?_, fun hlib henabled ↦ ?_, fun hno ↦ ?_⟩
  · simp only [hsignalled.clear_iff]
    exact hplaced.exited n hn
  · exact ⟨fun hjoin ↦ hlib (library_of_join h hjoin),
      fun hleave ↦ hlib (library_of_leave h hleave)⟩
  · cases hleft : s.main.hasLeft with
    | false => rfl
    | true =>
      exact absurd (library_of_left h hleft (by rw [(hplaced.disabled henabled).1]; rfl)) hlib
  · have hquiet (t : Thread) : s.terminating t ≠ .exiting := fun ht ↦
      hno t ((hsignalled.take_iff t).mpr (by rw [ht]; decide))
    have hleft : s.main.hasLeft = false := by
      cases hleft : s.main.hasLeft with
      | false => rfl
      | true =>
        obtain ⟨t, -, ht⟩ := hplaced.left hleft
        exact absurd ht (hquiet t)
    refine ⟨hleft, ?_⟩
    cases hend : s.ending with
    | none => exact Or.inl rfl
    | some e =>
      cases e with
      | aborted => exact Or.inr rfl
      | exited n =>
        obtain ⟨-, ht⟩ | ⟨-, t, ht⟩ := hplaced.exited n hend
        · exact absurd ht (hquiet _)
        · exact absurd ht (hquiet t)
      | crashed =>
        obtain htake | htake := other_of_stop h (run_crashed h hend).1
        · exact absurd htake (hno _)
        · exact absurd htake (hno _)

/-- `SIGTERM` is delivered to the thread of the server before it has created `server_`. -/
def earlySignal : List Event := [.setAllowCors, .start, .take .server, .clear .server, .test]

/-- The thread that was interrupted ends the process. -/
theorem captureMainLoop_ends_early : ∃ t, .clear t ∈ earlySignal ++ [.exit .server] := by
  obtain ⟨hexited, -⟩ := captureMainLoop_ends plainLib { controlEnabled := true }
    (earlySignal ++ [.exit .server]) _ rfl
  obtain ⟨hzero, -⟩ | ⟨-, hclear⟩ := hexited 1 rfl
  · cases hzero
  · exact hclear

end Main
end XaMain
