import VmPlayback.Bytes
import VmPlayback.Exec

namespace VmPlayback

inductive ConnectionClass where
  | bkndConnection
  | bkndUdpConnection
  | ftndConnection
  | ftndUdpConnection
  deriving DecidableEq, Repr

/-- Sockets are numbered in the order they are opened; a number is never reused. -/
abbrev Sock := ℕ

/-- The socket calls a connection object makes, over a state of their own.  `recv`
takes the `MSG_WAITALL` flag and returns its result with the bytes it delivered. -/
structure Net (σ : Type) where
  send : Sock → List UInt8 → σ → Int × σ
  recv : Sock → UInt32 → Bool → σ → Int × List UInt8 × σ
  close : Sock → σ → σ
  lastError : σ → String

inductive ConnectionError where
  | closed
  | sendFailed
  | receiveFailed
  /-- The loop's report: how far `content` had moved, what was left to receive,
  the last result and, for the UDT classes, the library's message. -/
  | receiveStopped (content : ℕ) (size : UInt32) (bytesRecv : Int32) (lastError : String)
  deriving DecidableEq

/-- `ConnectionException` and `UdpException` by the class that throws, and
`std::bad_alloc`. -/
inductive CommException where
  | connection (cls : ConnectionClass) (error : ConnectionError)
  | badAlloc
  deriving DecidableEq

namespace ConnectionClass

def isUdp : ConnectionClass → Bool
  | bkndConnection | ftndConnection => false
  | bkndUdpConnection | ftndUdpConnection => true

end ConnectionClass

/-- The text of an exception thrown for a buffer at address `base`. -/
def CommException.what (base : ℕ) : CommException → String
  | badAlloc => "std::bad_alloc"
  | connection cls .closed => if cls.isUdp then "UdpConnection closed." else "Connection closed."
  | connection _ .sendFailed => "Send failed."
  | connection _ .receiveFailed => "Receive failed."
  | connection cls (.receiveStopped content size bytesRecv lastError) =>
    "Receive failed: content = 0x" ++ String.ofList (Nat.toDigits 16 ((base + content) % 2 ^ 32)) ++
      ", size = " ++ toString size.toNat ++ ", bytes_recv = " ++ toString bytesRecv.toInt ++
      if cls.isUdp then "\n" ++ lastError else ""

structure Conn where
  fd : Sock
  isOpen : Bool
  deriving DecidableEq

structure ConnState (σ : Type) where
  conn : Conn
  net : σ

abbrev ConnM (σ : Type) := EStateM CommException (ConnState σ)

namespace Conn

variable {σ : Type} (net : Net σ) (cls : ConnectionClass)

def close : ConnM σ Unit := do
  let s ← get
  if s.conn.isOpen then
    set ({ s with
      conn := { s.conn with isOpen := false }
      net := net.close s.conn.fd s.net } : ConnState σ)

def sendDirect (content : List UInt8) : ConnM σ Unit := do
  let s ← get
  let (bytesSend, n) := net.send s.conn.fd content s.net
  set { s with net := n }
  if bytesSend = -1 ∨ UInt32.ofInt bytesSend < UInt32.ofNat content.length then
    close net
    throw (.connection cls .sendFailed)

def send (content : List UInt8) : ConnM σ Unit := do
  if !(← get).conn.isOpen then
    throw (.connection cls .closed)
  sendDirect net cls content

structure LoopEnd (σ : Type) where
  bytesRecv : Int32
  content : ℕ
  size : UInt32
  buffer : Mem
  net : σ

theorem toUInt32_pos {n : Int32} (h : 0 < n) : 0 < n.toUInt32.toNat := by
  rcases Nat.eq_zero_or_pos n.toUInt32.toNat with h0 | h0
  · have hz : n.toUInt32 = 0 := UInt32.toNat_inj.mp h0
    have hn : n = 0 := by
      rw [← Int32.toInt32_toUInt32 n, hz]
      rfl
    exact absurd (hn ▸ h) (by decide)
  · exact h0

/-- A turn of the loop leaves less to receive. -/
theorem sub_toNat_lt {n : Int32} {size : UInt32} (h : 0 < n ∧ n.toUInt32 < size) :
    (size - n.toUInt32).toNat < size.toNat := by
  rw [UInt32.toNat_sub_of_le _ _ (UInt32.le_of_lt h.2)]
  have := toUInt32_pos h.1
  have := UInt32.lt_iff_toNat_lt.mp h.2
  omega

/-- `recv` again and again, with the pointer moved on and the size reduced by each
result, until a result is not positive or covers what is left. -/
def receiveLoop (fd : Sock) (content : ℕ) (size : UInt32) (buffer : Mem) (s : σ) : LoopEnd σ :=
  let (result, bytes, s') := net.recv fd size false s
  let bytesRecv := Int32.ofInt result
  let buffer := buffer.store content bytes
  if h : 0 < bytesRecv ∧ bytesRecv.toUInt32 < size then
    have : (size - bytesRecv.toUInt32).toNat < size.toNat := sub_toNat_lt h
    receiveLoop fd (content + bytesRecv.toInt.toNat) (size - bytesRecv.toUInt32) buffer s'
  else ⟨bytesRecv, content, size, buffer, s'⟩
termination_by size.toNat

/-- The backend's TCP class leaves the waiting to `MSG_WAITALL`, the other three
loop.  Returns the caller's buffer as it is filled. -/
def receiveDirect (buffer : Mem) (size : UInt32) : ConnM σ Mem := do
  let s ← get
  match cls with
  | .bkndConnection =>
    let (bytesRecv, bytes, n) := net.recv s.conn.fd size true s.net
    set { s with net := n }
    if bytesRecv = -1 ∨ UInt32.ofInt bytesRecv < size then
      close net
      throw (.connection cls .receiveFailed)
    return buffer.store 0 bytes
  | _ =>
    let e := receiveLoop net s.conn.fd 0 size buffer s.net
    set { s with net := e.net }
    if e.bytesRecv ≤ 0 then
      close net
      throw (.connection cls (.receiveStopped e.content e.size e.bytesRecv (net.lastError e.net)))
    return e.buffer

def receive (buffer : Mem) (size : UInt32) : ConnM σ Mem := do
  if !(← get).conn.isOpen then
    throw (.connection cls .closed)
  receiveDirect net cls buffer size

open Exec

def shut (s : ConnState σ) : ConnState σ :=
  if s.conn.isOpen then
    { conn := { s.conn with isOpen := false }, net := net.close s.conn.fd s.net }
  else s

theorem close_run (s : ConnState σ) : close net s = .ok () (shut net s) := by
  simp only [close, shut, run_bind, run_get, run_ite, run_set, run_pure]
  split <;> rfl

theorem shut_isOpen (s : ConnState σ) : (shut net s).conn.isOpen = false := by
  rw [shut]
  split
  · rfl
  · next h => simpa using h

theorem send_closed {s : ConnState σ} (h : s.conn.isOpen = false) (content : List UInt8) :
    send net cls content s = .error (.connection cls .closed) s := by
  simp only [send, run_bind, run_get, run_throw, h, Bool.not_false, ↓reduceIte]

theorem receive_closed {s : ConnState σ} (h : s.conn.isOpen = false) (buffer : Mem)
    (size : UInt32) : receive net cls buffer size s = .error (.connection cls .closed) s := by
  simp only [receive, run_bind, run_get, run_throw, h, Bool.not_false, ↓reduceIte]

theorem send_open {s : ConnState σ} (h : s.conn.isOpen = true) (content : List UInt8) :
    send net cls content s =
      let (bytesSend, n) := net.send s.conn.fd content s.net
      if bytesSend = -1 ∨ UInt32.ofInt bytesSend < UInt32.ofNat content.length then
        .error (.connection cls .sendFailed) (shut net { s with net := n })
      else .ok () { s with net := n } := by
  simp only [send, sendDirect, run_bind, run_get, run_ite, run_throw, run_pure, run_set, close_run,
    h, Bool.not_true, Bool.false_eq_true, ↓reduceIte]

theorem receive_waitall {s : ConnState σ} (h : s.conn.isOpen = true) (buffer : Mem)
    (size : UInt32) :
    receive net .bkndConnection buffer size s =
      let (bytesRecv, bytes, n) := net.recv s.conn.fd size true s.net
      if bytesRecv = -1 ∨ UInt32.ofInt bytesRecv < size then
        .error (.connection .bkndConnection .receiveFailed) (shut net { s with net := n })
      else .ok (buffer.store 0 bytes) { s with net := n } := by
  simp only [receive, receiveDirect, run_bind, run_get, run_ite, run_throw, run_pure, run_set,
    close_run, h, Bool.not_true, Bool.false_eq_true, ↓reduceIte]

theorem receive_loop {s : ConnState σ} (h : s.conn.isOpen = true) (buffer : Mem)
    (size : UInt32) (hc : cls ≠ .bkndConnection) :
    receive net cls buffer size s =
      let e := receiveLoop net s.conn.fd 0 size buffer s.net
      if e.bytesRecv ≤ 0 then
        .error (.connection cls
          (.receiveStopped e.content e.size e.bytesRecv (net.lastError e.net)))
          (shut net { s with net := e.net })
      else .ok e.buffer { s with net := e.net } := by
  cases cls with
  | bkndConnection => exact absurd rfl hc
  | _ =>
    simp only [receive, receiveDirect, run_bind, run_get, run_ite, run_throw, run_pure, run_set,
      close_run, h, Bool.not_true, Bool.false_eq_true, ↓reduceIte]

/-- What every `recv` of the loop keeps, the loop keeps. -/
theorem receiveLoop_invariant {fd : Sock} {I : σ → Prop}
    (hrecv : ∀ size s, I s → I (net.recv fd size false s).2.2) (content : ℕ) (size : UInt32)
    (buffer : Mem) {s : σ} (h : I s) : I (receiveLoop net fd content size buffer s).net := by
  -- on what is left to receive, which every turn reduces
  induction hk : size.toNat using Nat.strong_induction_on
    generalizing size content buffer s with
  | _ k ih =>
    rw [receiveLoop]
    dsimp only
    split
    · next hpos => exact ih _ (hk ▸ sub_toNat_lt hpos) _ _ _ (hrecv size s h) rfl
    · exact hrecv size s h

end Conn

end VmPlayback
