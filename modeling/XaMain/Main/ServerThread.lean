import XaMain.Main.Threads
import XaMain.Rpc.Workers

/-!
# The main loop as the owner of a server

`Rpc/Workers.lean` is about a server with any function `serve` and any number of threads, whatever
its owner does.  Here the owner is the main loop, the class is `pca::rpc`, and there is one thread.

`captureMainLoop_refines` says that the main loop is such an owner, unless it calls `stop` before
there is a server: forgetting what has to do with the main thread and the signals, its runs are
among those of the server, with `allow_cors_` as the settings say from the start.
-/

set_option autoImplicit false

namespace XaMain
namespace Main

open Rpc Options

/-! ## What the server sees -/

/-- Where the thread of the server is, as `run`. -/
def ServerAt.runAt : ServerAt → RunAt
  | .absent => .absent
  | .creating => .creating
  | .created => .starting
  | .serving => .serving
  | .finished => .finished

theorem ServerAt.two_le_phase {place : ServerAt} (h : place.hasServer = true) :
    2 ≤ place.runAt.phase := by
  cases place <;> first | decide | cases h

theorem ServerAt.runAt_of_isAlive {place : ServerAt} (h : place.isAlive = true) :
    place.runAt ≠ .absent ∧ place.runAt ≠ .finished := by
  cases place <;> first | decide | cases h

/-- The server in a state of the main loop and its threads. -/
def State.workers (s : State) : Workers 0 where
  run := s.server.runAt
  started := 0
  returned _ := false
  joined := 0
  handling _ := none
  stopRequested := s.stopRequested
  aborted := s.ending = some .aborted
  answered := s.served

/-- The steps of the server in a step of the main loop and its threads. -/
def Event.project : Event → List (WorkersEvent 0)
  | .start => [.start]
  | .stop => [.stop]
  | .join => [.join]
  | .create => [.create]
  | .run => [.enter]
  | .serve request => [.accept none request, .respond none]
  | .finish => [.leave none, .finish]
  | .fail => [.fail]
  | .setAllowCors | .test | .wake | .leave | .take _ | .clear _ | .exit _ => []

/-! ## The simulation -/

section Refinement

variable {lib : HttpLib} {options : Settings} {s : State} {c : Event}

/-- A step of a server no thread of which has thrown. -/
theorem threads_step {server : RpcBase} {m : Nat} {w : Workers m} {c : WorkersEvent m}
    (haborted : w.aborted = false) (hguard : w.Guard lib server c) :
    (threads lib server m).step w c = some (w.after lib server c) := if_pos ⟨haborted, hguard⟩

/-- The handler of the program returns the response that the main loop knows of. -/
theorem handlerResponse_eq (lib : HttpLib) (allowCors : Bool) (request : HttpRequest) :
    handlerResponse lib (rpc allowCors) request = some (respond lib allowCors request) := by
  obtain ⟨response, hrun⟩ := handle_rpc lib allowCors request ⟨0, [], ""⟩
  rw [handlerResponse, respond, hrun]

/-- The handler is called and returns. -/
theorem threads_serve {allowCors : Bool} {w : Workers 0} (haborted : w.aborted = false)
    (hrun : w.run = .serving) (hidle : w.handling = fun _ ↦ none) (request : HttpRequest) :
    (threads lib (rpc allowCors) 0).runFrom (some w) [.accept none request, .respond none]
      = some { w with answered := w.answered ++ [(request, respond lib allowCors request)] } := by
  have haccept : (threads lib (rpc allowCors) 0).step w (.accept none request)
      = some { w with handling := Function.update w.handling none (some request) } :=
    threads_step haborted ⟨hrun, by rw [hidle]⟩
  have hresponse := handlerResponse_eq lib allowCors request
  rw [Protocol.runFrom_cons, haccept, Protocol.runFrom_cons, threads_step]
  · simp [Protocol.runFrom, Workers.after, Workers.due, hresponse, hidle]
  · exact haborted
  · simp [Workers.Guard, hresponse]

theorem step_workers (hending : s.ending = none) (hguard : s.Guard lib c)
    (hplaced : Placed lib options s) (hsafe : (s.after lib options c).ending ≠ some .crashed) :
    (threads lib (rpc options.controlAllowCors) 0).runFrom (some s.workers) c.project
      = some (s.after lib options c).workers := by
  have haborted : s.workers.aborted = false := by simp [State.workers, hending]
  cases c with
  | start =>
    have hserver := hplaced.unstarted (by rw [hguard.2]; rfl)
    exact threads_step haborted (by simp [Workers.Guard, State.workers, hserver, ServerAt.runAt])
  | stop =>
    cases hserver : s.server.hasServer with
    | false => exact absurd (by simp [State.after, hserver]) hsafe
    | true =>
      have hcreated : s.workers.Guard lib (rpc options.controlAllowCors) .stop :=
        ServerAt.two_le_phase hserver
      refine (threads_step haborted hcreated).trans ?_
      simp [State.after, hserver, Workers.after, State.workers]
  | join =>
    exact threads_step haborted (by simp [Workers.Guard, State.workers, hguard.2.2, ServerAt.runAt])
  | create =>
    exact threads_step haborted (by simp [Workers.Guard, State.workers, hguard.2, ServerAt.runAt])
  | run =>
    exact threads_step haborted (by simp [Workers.Guard, State.workers, hguard.2, ServerAt.runAt])
  | serve request =>
    have hserving : s.server = .serving := hguard.2
    have hcors := hplaced.allowCors (by rw [hserving]; decide)
    refine (threads_serve haborted (by rw [State.workers, hserving]; rfl) rfl request).trans ?_
    rw [← hcors]
    rfl
  | finish =>
    obtain ⟨-, hserving, hreturns⟩ := hguard
    have hleave : (threads lib (rpc options.controlAllowCors) 0).step s.workers (.leave none)
        = some { s.workers with run := .joining } :=
      threads_step haborted
        ⟨by simp [Workers.InRun, State.workers, hserving, ServerAt.runAt], hreturns⟩
    rw [Event.project, Protocol.runFrom_cons, hleave]
    exact threads_step haborted ⟨rfl, rfl⟩
  | fail => exact threads_step haborted (ServerAt.runAt_of_isAlive hguard.2)
  | leave | exit _ =>
    show some s.workers = some (State.workers _)
    simp [State.after, State.workers, hending]
  | _ => rfl

end Refinement

/-- **The main loop refines the server.**  Seen from the server, every run of the main loop and the
signals, in which `stop` is not called before there is a server, is a run of the server with one
thread, with the same requests and the same responses. -/
theorem captureMainLoop_refines (lib : HttpLib) (options : Settings) (l : List Event) (s : State)
    (h : (captureMainLoop lib options).run l = some s) (hsafe : s.ending ≠ some .crashed) :
    (threads lib (rpc options.controlAllowCors) 0).run (l.flatMap Event.project)
      = some s.workers := by
  have hgood (s : State) (c : Event) (s' : State) (hstep : s.step lib options c = some s')
      (_ : s'.ending ≠ some .crashed) : s.ending ≠ some .crashed := by
    rw [(step_cases hstep).1]
    simp
  obtain ⟨w, hrun, -, rfl⟩ := (captureMainLoop lib options).simulation
    (threads lib (rpc options.controlAllowCors) 0) (f := Event.project)
    (R := fun s w ↦ Placed lib options s ∧ w = s.workers) ⟨start_placed, rfl⟩ hgood
    (fun s c s' w hstep hsafe ⟨hplaced, hw⟩ ↦ by
      obtain ⟨hending, hguard, rfl⟩ := step_cases hstep
      rw [hw]
      exact ⟨_, step_workers hending hguard hplaced hsafe, step_placed s c _ hstep hplaced, rfl⟩)
    h hsafe
  exact hrun

/-- A request is answered, and the signal is delivered to a thread of a library. -/
def orderlyEnd : List Event :=
  [.setAllowCors, .start, .test, .create, .run, .serve testRequest, .take .library,
    .clear .library, .wake, .test, .stop, .finish, .join, .leave]

theorem captureMainLoop_refines_orderlyEnd : ∃ w,
    (threads plainLib (rpc false) 0).run (orderlyEnd.flatMap Event.project) = some w ∧
      w.run = .finished ∧ w.answered.length = 1 := by
  have hrefines := captureMainLoop_refines plainLib { controlEnabled := true } orderlyEnd _ rfl
    (by simp [State.after])
  exact ⟨_, hrefines, rfl, rfl⟩

end Main
end XaMain
