import MuduoNet.Tcp.Shutdown
import MuduoNet.Tcp.Effects

/-!
# A connection and the code that uses it

The callbacks of a connection from its construction to its destruction, on the loop thread. What
a callback asks of its own connection is done, command by command, before the next event of the
loop. The callbacks keep no state of their own, and no write-complete callback is set.
-/
namespace MuduoNet

open Lib Lib.Outcome TcpConnection

/-- What user code does to its connection. -/
inductive Command
  | send (message : List UInt8)
  | shutdown
  deriving DecidableEq, Repr

/-- The callbacks: `connectionCallback_` of a connection that is up; `messageCallback_`, with the
calls that it makes to other code while it reads the buffer; and what that code does in one of
them. -/
structure Application (ε : Type) where
  onConnection : Except Fault (List Command)
  onMessage : Buffer → Except Fault (List ε × Buffer)
  respond : ε → Except Fault (List Command)

inductive Stage
  | active
  /-- `handleClose` has run, `connectDestroyed` is queued. -/
  | closing
  | destroyed
  deriving DecidableEq, Repr

/-- The program does not read the last three fields: the commands that have been done, the bytes
that `readv` has delivered, and the calls made by `messageCallback_`. -/
structure Session (ε : Type) where
  tcp : TcpConnection
  stage : Stage
  /-- What the callback that runs has still to do. -/
  todo : List Command
  done : List Command
  received : List UInt8
  calls : List ε

inductive SessionLabel
  | establish
  /-- The next command. -/
  | act (w : WriteResult)
  | read (r : Buffer.ReadvResult)
  | write (w : WriteResult)
  | error
  /-- `handleClose`, called by `Channel::handleEvent`. -/
  | hangUp
  | destroy
  deriving DecidableEq

/-- The bytes that the step takes from the socket. -/
def SessionLabel.delivered : SessionLabel → List UInt8
  | .read (.delivered bytes) => bytes
  | _ => []

namespace Session

variable {ε : Type}

/-- What the constructors leave. -/
def start (sockfd : Int) : Session ε := ⟨.new sockfd false, .active, [], [], [], []⟩

/-- The loop may handle an event of the connection. -/
def Listens (s : Session ε) : Prop :=
  s.stage = .active ∧ s.tcp.state_ ≠ .kConnecting ∧ s.todo = []

instance (s : Session ε) : Decidable s.Listens := inferInstanceAs (Decidable (_ ∧ _ ∧ _))

/-- `::write` accepts at most what it is given. -/
def CanWrite (message : List UInt8) : WriteResult → Prop
  | .wrote n => n ≤ message.length
  | .failed _ => True

instance (message : List UInt8) (w : WriteResult) : Decidable (CanWrite message w) :=
  match w with
  | .wrote n => inferInstanceAs (Decidable (n ≤ message.length))
  | .failed _ => isTrue trivial

def Enabled (s : Session ε) : SessionLabel → Prop
  | .establish => s.stage = .active ∧ s.tcp.state_ = .kConnecting
  | .act w => s.stage = .active ∧
    match s.todo with
    | .send message :: _ => CanWrite message w
    | .shutdown :: _ => True
    | [] => False
  | .read r => s.Listens ∧ s.tcp.CanRead r
  | .write w => s.Listens ∧ CanWrite s.tcp.outputBuffer_.readable w
  | .error | .hangUp => s.Listens
  | .destroy => s.stage = .closing

/-- One command. The message is a `std::string`. -/
def perform (tcp : TcpConnection) (w : WriteResult) : Command → Except Fault TcpConnection
  | .send message => do
    demand .lengthError (message.length ≤ maxSize)
    tcp.send message w
  | .shutdown => .ok tcp.shutdown

variable (app : Application ε)

/-- `messageCallback_`, behind a `readv` that has delivered `bytes`. -/
def callback (s : Session ε) (tcp : TcpConnection) (bytes : List UInt8) :
    Except Fault (Session ε) := do
  let (calls, input) ← app.onMessage tcp.inputBuffer_
  let commands ← calls.mapM app.respond
  return { s with
    tcp := { tcp with inputBuffer_ := input }
    todo := commands.flatten
    received := s.received ++ bytes
    calls := s.calls ++ calls }

def step (s : Session ε) : SessionLabel → Except Fault (Session ε)
  | .establish => do
    let tcp ← s.tcp.connectEstablished
    let commands ← app.onConnection
    return { s with tcp := tcp, todo := commands }
  | .act w =>
    match s.todo with
    | command :: todo => do
      let tcp ← perform s.tcp w command
      return { s with tcp := tcp, todo := todo, done := s.done ++ [command] }
    | [] => .ok s
  | .read r => do
    let tcp ← s.tcp.handleRead r
    match r with
    | .failed _ => return { s with tcp := tcp }
    | .delivered [] => return { s with tcp := tcp, stage := .closing }
    | .delivered bytes => s.callback app tcp bytes
  | .write w => do
    let tcp ← s.tcp.handleWrite w
    return { s with tcp := tcp }
  | .error => .ok { s with tcp := s.tcp.handleError }
  | .hangUp => do
    let tcp ← s.tcp.handleClose
    return { s with tcp := tcp, stage := .closing }
  | .destroy => do
    let tcp ← s.tcp.connectDestroyed
    return { s with tcp := tcp, stage := .destroyed }

def machine : Machine (Session ε) SessionLabel Fault where
  enabled := Enabled
  step := step app

instance (tcp : TcpConnection) (r : Buffer.ReadvResult) : Decidable (tcp.CanRead r) :=
  match r with
  | .delivered bytes =>
    inferInstanceAs (Decidable (bytes.length ≤ tcp.inputBuffer_.writableBytes + Buffer.kExtrabuf))
  | .failed _ => isTrue trivial

instance (s : Session ε) (l : SessionLabel) : Decidable (s.Enabled l) :=
  match l with
  | .establish => inferInstanceAs (Decidable (_ ∧ _))
  | .act w =>
    match h : s.todo with
    | .send message :: _ =>
      decidable_of_iff (s.stage = .active ∧ CanWrite message w) (by simp [Enabled, h])
    | .shutdown :: _ => decidable_of_iff (s.stage = .active) (by simp [Enabled, h])
    | [] => isFalse (by simp [Enabled, h])
  | .read _ | .write _ => inferInstanceAs (Decidable (_ ∧ _))
  | .error | .hangUp => inferInstanceAs (Decidable s.Listens)
  | .destroy => inferInstanceAs (Decidable (s.stage = .closing))

instance (s : Session ε) (l : SessionLabel) : Decidable ((machine app).enabled s l) :=
  inferInstanceAs (Decidable (s.Enabled l))

end Session

end MuduoNet
