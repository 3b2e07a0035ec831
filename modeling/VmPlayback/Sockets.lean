import VmPlayback.Connection
import VmPlayback.Handles

namespace VmPlayback

open Exec Handles

inductive SockCall where
  | bind
  | listen
  | accept
  | connect
  | send
  | recv
  deriving DecidableEq

/-- The operating system's or the UDT library's side: all calls so far, the number
of the next socket, and what the sends and receives to come return. -/
structure Kernel where
  log : List (Access SockCall Sock)
  next : Sock
  answers : List (Int × List UInt8)
  lastError : String

namespace Kernel

def acquire (k : Kernel) : Kernel :=
  { k with log := .acquire k.next :: k.log, next := k.next + 1 }

def use (k : Kernel) (call : SockCall) (fd : Sock) : Kernel :=
  { k with log := .use call fd :: k.log }

def release (k : Kernel) (fd : Sock) : Kernel := { k with log := .release fd :: k.log }

def answer (k : Kernel) : Int × List UInt8 := k.answers.headD (-1, [])

def answered (k : Kernel) (call : SockCall) (fd : Sock) : Kernel :=
  { k.use call fd with answers := k.answers.tail }

def net : Net Kernel where
  send fd _ k := (k.answer.1, k.answered .send fd)
  recv fd _ _ k := (k.answer.1, k.answer.2, k.answered .recv fd)
  close fd k := k.release fd
  lastError k := k.lastError

end Kernel

/-- The static members of a class and its objects.  An object is named after the
socket it was made for. -/
structure Endpoint where
  kernel : Kernel
  listening : Bool
  /-- What the last `socket` call for the listener returned. -/
  sockFd : Option Sock
  /-- The frontend classes start their library on first use. -/
  initialized : Bool
  objects : Sock → Option Conn

structure SetupException where
  cls : ConnectionClass
  what : String

abbrev SockM := EStateM SetupException Endpoint

structure ListenOutcome where
  address : Bool
  socket : Bool
  bind : Bool
  listen : Bool
  lastError : String

structure ConnectOutcome where
  startup : Bool
  address : Bool
  socket : Bool
  connect : Bool

def PORT : Int32 := 8199

def socket (created : Bool) : SockM (Option Sock) := do
  let s ← get
  if created then
    set { s with kernel := s.kernel.acquire }
    return some s.kernel.next
  else return none

/-- A call on the result of `socket`; on an invalid socket it fails. -/
def call (kind : SockCall) (fd : Option Sock) (succeeds : Bool) : SockM Bool := do
  match fd with
  | none => return false
  | some fd =>
    modify fun s => { s with kernel := s.kernel.use kind fd }
    return succeeds

def newObject (fd : Sock) : SockM Unit :=
  modify fun s => { s with objects := Function.update s.objects fd (some ⟨fd, true⟩) }

namespace Bknd

def closeListener : SockM Unit := do
  let s ← get
  if s.listening then
    match s.sockFd with
    | none => set { s with listening := false }
    | some fd => set { s with kernel := s.kernel.release fd, listening := false }

def Connection.listen (port : Int32) (out : ListenOutcome) : SockM Unit := do
  if (← get).listening then
    closeListener
  let fd ← socket out.socket
  modify fun s => { s with sockFd := fd }
  if fd.isNone then
    throw ⟨.bkndConnection, "Unable to create socket!"⟩
  if !(← call .bind fd out.bind) then
    throw ⟨.bkndConnection, "Unable to bind on port " ++ toString port.toInt⟩
  if !(← call .listen fd out.listen) then
    throw ⟨.bkndConnection, "Unable to listen on port " ++ toString port.toInt⟩
  modify fun s => { s with listening := true }

/-- Looks the port up first, and leaves an invalid socket to `bind`. -/
def UdpConnection.listen (out : ListenOutcome) : SockM Unit := do
  if (← get).listening then
    closeListener
  if !out.address then
    throw ⟨.bkndUdpConnection, "Illegal port number or port is busy."⟩
  let fd ← socket out.socket
  modify fun s => { s with sockFd := fd }
  if !(← call .bind fd out.bind) then
    throw ⟨.bkndUdpConnection,
      "Unable to bind on port " ++ toString PORT.toInt ++ "\n" ++ out.lastError⟩
  if !(← call .listen fd out.listen) then
    throw ⟨.bkndUdpConnection, "Unable to listen on port " ++ toString PORT.toInt⟩
  modify fun s => { s with listening := true }

def listen (cls : ConnectionClass) (port : Int32) (out : ListenOutcome) : SockM Unit :=
  if cls.isUdp then UdpConnection.listen out else Connection.listen port out

def acceptConnection (cls : ConnectionClass) (out : ListenOutcome) (accepted : Bool) :
    SockM Unit := do
  if !(← get).listening then
    listen cls PORT out
  if !(← call .accept (← get).sockFd accepted) then
    throw ⟨cls, "Accept failed."⟩
  let s ← get
  set { s with kernel := s.kernel.acquire }
  newObject s.kernel.next

end Bknd

namespace Ftnd

/-- `WSAStartup` on first use; the UDT class starts its library unchecked. -/
def ensureInitialized (cls : ConnectionClass) (startup : Bool) : SockM Unit := do
  if !(← get).initialized then
    if !cls.isUdp && !startup then
      throw ⟨cls, "WSAStartup failed: cannot find a suitable version of winsock.dll."⟩
    modify fun s => { s with initialized := true }

def Connection.newConnection (out : ConnectOutcome) : SockM Unit := do
  ensureInitialized .ftndConnection out.startup
  if !out.address then
    throw ⟨.ftndConnection, "Incorrect network address."⟩
  match ← socket out.socket with
  | none => throw ⟨.ftndConnection, "Cannot create socket."⟩
  | some fd =>
    if !(← call .connect fd out.connect) then
      throw ⟨.ftndConnection, "Cannot connect to va host."⟩
    newObject fd

/-- An invalid socket is left to `connect`. -/
def UdpConnection.newConnection (out : ConnectOutcome) : SockM Unit := do
  ensureInitialized .ftndUdpConnection out.startup
  if !out.address then
    throw ⟨.ftndUdpConnection, "Incorrect network address."⟩
  match ← socket out.socket with
  | none => throw ⟨.ftndUdpConnection, "Connect failed."⟩
  | some fd =>
    if !(← call .connect fd out.connect) then
      throw ⟨.ftndUdpConnection, "Connect failed."⟩
    newObject fd

def newConnection (cls : ConnectionClass) (out : ConnectOutcome) : SockM Unit :=
  if cls.isUdp then UdpConnection.newConnection out else Connection.newConnection out

end Ftnd

inductive SockEvent where
  | listen (port : Int32) (out : ListenOutcome)
  | closeListener
  | acceptConnection (out : ListenOutcome) (accepted : Bool)
  | newConnection (out : ConnectOutcome)
  | send (obj : Sock) (content : List UInt8) (result : Int)
  | receive (obj : Sock) (buffer : Mem) (size : UInt32) (results : List (Int × List UInt8))
      (lastError : String)
  | close (obj : Sock)
  | destroy (obj : Sock)

namespace ConnectionClass

def isBknd : ConnectionClass → Bool
  | bkndConnection | bkndUdpConnection => true
  | ftndConnection | ftndUdpConnection => false

end ConnectionClass

namespace Endpoint

def store (s : Endpoint) (obj : Sock) (done : ConnState Kernel) : Endpoint :=
  { s with kernel := done.net, objects := Function.update s.objects obj (some done.conn) }

def method {α : Type} (obj : Sock) (m : ConnM Kernel α) (s : Endpoint) : Endpoint :=
  match s.objects obj with
  | none => s
  | some c => s.store obj (final (m ⟨c, s.kernel⟩))

def answering (s : Endpoint) (answers : List (Int × List UInt8)) (lastError : String) : Endpoint :=
  { s with kernel := { s.kernel with answers := answers, lastError := lastError } }

/-- One operation on the class; the ones it does not have change nothing. -/
def step (cls : ConnectionClass) (s : Endpoint) : SockEvent → Endpoint
  | .listen port out => if cls.isBknd then final (Bknd.listen cls port out s) else s
  | .closeListener => if cls.isBknd then final (Bknd.closeListener s) else s
  | .acceptConnection out accepted =>
    if cls.isBknd then final (Bknd.acceptConnection cls out accepted s) else s
  | .newConnection out => if cls.isBknd then s else final (Ftnd.newConnection cls out s)
  | .send obj content result =>
    (s.answering [(result, [])] "").method obj (Conn.send Kernel.net cls content)
  | .receive obj buffer size results lastError =>
    (s.answering results lastError).method obj (Conn.receive Kernel.net cls buffer size)
  | .close obj => s.method obj (Conn.close Kernel.net)
  -- the destructor closes, then the object is gone
  | .destroy obj =>
    let s := s.method obj (Conn.close Kernel.net)
    { s with objects := Function.update s.objects obj none }

def init : Endpoint := ⟨⟨[], 0, [], ""⟩, false, none, false, fun _ => none⟩

end Endpoint

end VmPlayback
