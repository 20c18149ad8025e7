import AdServer.Library.Transition

/-!
The request socket of `AdSelectClient`. It is ready to send or waits for the reply to what it
has sent. `search` opens a new socket after a timeout, and after a send that fails with
`ENOTSOCK`; `getBannerById` never does. An exception between the send and the reply leaves the
socket waiting, and from then on every send on it fails.
-/
namespace AdServer.Select

open Transition

inductive Socket
  | ready | awaiting
  deriving DecidableEq, Repr

/-- A `zmq::error_t` with its number, or another `std::exception`. -/
inductive Thrown
  | zmq (num : Int)
  | other
  deriving DecidableEq, Repr

def Thrown.notSocket : Thrown := .zmq 88

/-- `EFSM`, the error of a send out of turn. -/
def Thrown.outOfTurn : Thrown := .zmq 156384763

/-- What `pollAndRecv` does within its time. -/
inductive Poll
  | received | timeout | thrown (e : Thrown)
  deriving DecidableEq, Repr

def Poll.throws : Poll → Bool
  | .thrown _ => true
  | _ => false

/-- The course of a `search`: whether the request could be made, how the send and the poll went,
and what became of the response, where `none` is an exception. -/
structure SearchInput where
  prepared : Bool
  send : Option Thrown
  poll : Poll
  parsed : Option Bool
  deriving DecidableEq, Repr

/-- The course of a `getBannerById`, where `false` for the response is an empty or a bad one. -/
structure BannerInput where
  prepared : Bool
  send : Option Thrown
  recv : Option Thrown
  parsed : Bool
  deriving DecidableEq, Repr

inductive Call
  | search (input : SearchInput)
  | getBannerById (input : BannerInput)
  deriving DecidableEq, Repr

def Socket.send : Socket → Option Thrown → Except Thrown Socket
  | .ready, none => .ok .awaiting
  | .awaiting, none => .error .outOfTurn
  | _, some e => .error e

/-- The answer to what was sent; `none` for a timeout. -/
def Socket.pollAndRecv : Poll → Except Thrown (Option Socket)
  | .received => .ok (some .ready)
  | .timeout => .ok none
  | .thrown e => .error e

def Socket.recv : Option Thrown → Except Thrown Socket
  | none => .ok .ready
  | some e => .error e

/-- The socket after the call and the result, `none` for an exception. -/
def search (socket : Socket) (input : SearchInput) : Socket × Option Bool :=
  if input.prepared then
    match socket.send input.send with
    | .error e => (if e = .notSocket then .ready else socket, some false)
    | .ok socket =>
      match Socket.pollAndRecv input.poll with
      | .error _ => (socket, some false)
      | .ok none => (.ready, some false)
      | .ok (some socket) => (socket, input.parsed)
  else (socket, none)

def getBannerById (socket : Socket) (input : BannerInput) : Socket × Option Bool :=
  if input.prepared then
    match socket.send input.send with
    | .error _ => (socket, some false)
    | .ok socket =>
      match Socket.recv input.recv with
      | .error _ => (socket, some false)
      | .ok socket => (socket, some input.parsed)
  else (socket, some false)

def Call.run (socket : Socket) : Call → Socket × Option Bool
  | .search input => Select.search socket input
  | .getBannerById input => Select.getBannerById socket input

/-- A client with its connected socket, and the calls one after the other. -/
def client : System Socket Call where
  init socket := socket = .ready
  step socket call socket' := socket' = (call.run socket).1

/-- The poll or the receive throws after the request has been sent. -/
def Call.abandoned : Call → Bool
  | .search input => input.prepared && input.send = none && input.poll.throws
  | .getBannerById input => input.prepared && input.send = none && input.recv ≠ none

def Call.sendError : Call → Option Thrown
  | .search input => input.send
  | .getBannerById input => input.send

theorem search_ready_iff (input : SearchInput) :
    (search .ready input).1 = .ready ↔ (Call.search input).abandoned = false := by
  obtain ⟨prepared, send, poll, parsed⟩ := input
  cases prepared with
  | false => exact iff_of_true rfl rfl
  | true =>
      cases send with
      | some e => simp [search, Socket.send, Call.abandoned]
      | none =>
          cases poll with
          | received => exact iff_of_true rfl rfl
          | timeout => exact iff_of_true rfl rfl
          | thrown e => exact iff_of_false nofun nofun

theorem getBannerById_ready_iff (input : BannerInput) :
    (getBannerById .ready input).1 = .ready ↔ (Call.getBannerById input).abandoned = false := by
  obtain ⟨prepared, send, recv, parsed⟩ := input
  cases prepared with
  | false => exact iff_of_true rfl rfl
  | true =>
      cases send with
      | some e => exact iff_of_true rfl rfl
      | none =>
          cases recv with
          | none => exact iff_of_true rfl rfl
          | some e => exact iff_of_false nofun nofun

/-- The socket is ready after every call of a run if and only if no call is abandoned between
its send and its reply. -/
theorem socket_ready_iff (calls : List Call) (socket : Socket) :
    Throughout client (· = .ready) calls socket ↔
      Run client (fun _ call => call.abandoned = false) calls socket := by
  refine throughout_iff (fun _ => True) (· = .ready) ?_ ?_ (fun _ _ _ _ _ _ _ => trivial)
    calls socket
  · intro socket hready
    exact ⟨trivial, hready⟩
  · rintro socket call socket' - rfl rfl
    cases call with
    | search input => exact search_ready_iff input
    | getBannerById input => exact getBannerById_ready_iff input

/-- A poll that is interrupted. -/
theorem interrupted_poll :
    Run client (fun _ _ => True) [.search ⟨true, none, .thrown (.zmq 4), some true⟩] .awaiting :=
  (Run.start rfl : Run client (fun _ _ => True) [] .ready).next trivial rfl

/-- On a waiting socket the send throws, so a call is over before it polls. -/
theorem send_awaiting (outcome : Option Thrown) :
    Socket.awaiting.send outcome = .error (outcome.getD .outOfTurn) := by
  cases outcome with
  | none => rfl
  | some e => rfl

theorem run_awaiting (call : Call) : (call.run .awaiting).2 ≠ some true ∧
    (call.sendError ≠ some .notSocket → (call.run .awaiting).1 = .awaiting) := by
  cases call with
  | search input =>
      simp only [Call.run, search, send_awaiting]
      split
      · refine ⟨by simp, fun hsend => if_neg fun heq => ?_⟩
        simp only [Call.sendError] at hsend
        cases hcause : input.send with
        | none =>
            rw [hcause] at heq
            exact absurd heq (by decide)
        | some e =>
            rw [hcause] at heq hsend
            exact hsend (congrArg some heq)
      · exact ⟨by simp, fun _ => rfl⟩
  | getBannerById input =>
      simp only [Call.run, getBannerById, send_awaiting]
      split
      · exact ⟨by simp, fun _ => rfl⟩
      · exact ⟨by simp, fun _ => rfl⟩

end AdServer.Select
