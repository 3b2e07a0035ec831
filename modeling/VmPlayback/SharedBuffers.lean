import VmPlayback.AppendOnly
import VmPlayback.Sharing

namespace VmPlayback

open Handles

structure Refbuf where
  content : ℕ
  refcount : UInt32

inductive RefbufCall where
  | inc
  | dec
  | getContentPtr
  deriving DecidableEq

/-- The memory all objects share.  `calls` is a ghost: what has been done with the
`Refbuf`s, the latest first; to delete one is to release it. -/
structure Storage where
  heap : Heap
  refbufs : ℕ → Refbuf
  nextRefbuf : ℕ
  calls : List (Access RefbufCall ℕ)

namespace Refbuf

def new (buf : ℕ) (s : Storage) : ℕ × Storage :=
  (s.nextRefbuf,
    { s with
      refbufs := Function.update s.refbufs s.nextRefbuf ⟨buf, 1⟩
      nextRefbuf := s.nextRefbuf + 1
      calls := .acquire s.nextRefbuf :: s.calls })

def getContentPtr (this : ℕ) (s : Storage) : ℕ × Storage :=
  ((s.refbufs this).content, { s with calls := .use .getContentPtr this :: s.calls })

def setRefcount (this : ℕ) (refcount : UInt32) (s : Storage) : ℕ → Refbuf :=
  Function.update s.refbufs this ⟨(s.refbufs this).content, refcount⟩

def inc (this : ℕ) (s : Storage) : Storage :=
  { s with
    refbufs := setRefcount this ((s.refbufs this).refcount + 1) s
    calls := .use .inc this :: s.calls }

/-- `delete this`, with the destructor. -/
def delete (this : ℕ) (s : Storage) : Storage :=
  { s with heap := s.heap.free (s.refbufs this).content, calls := .release this :: s.calls }

def dec (this : ℕ) (s : Storage) : Storage :=
  let refcount := (s.refbufs this).refcount - 1
  let s' : Storage :=
    { s with refbufs := setRefcount this refcount s, calls := .use .dec this :: s.calls }
  if refcount = 0 then delete this s' else s'

end Refbuf

/-- A `Message` object; `content` is the address of its `Refbuf`. -/
structure SharedMessage where
  header : Int32
  length : UInt32
  content : ℕ

namespace SharedMessage

def new (header : Int32) (length : UInt32) (buf : ℕ) (s : Storage) : SharedMessage × Storage :=
  let (content, s) := Refbuf.new buf s
  (⟨header, length, content⟩, s)

def getContentPtr (this : SharedMessage) (s : Storage) : ℕ × Storage :=
  Refbuf.getContentPtr this.content s

def copy (other : SharedMessage) (s : Storage) : SharedMessage × Storage :=
  (⟨other.header, other.length, other.content⟩, Refbuf.inc other.content s)

/-- `operator=` past its check that the two are not one object: the old `Refbuf` is
let go before the new one is taken. -/
def assign (this other : SharedMessage) (s : Storage) : SharedMessage × Storage :=
  let s := Refbuf.dec this.content s
  (⟨other.header, other.length, other.content⟩, Refbuf.inc other.content s)

def destroy (this : SharedMessage) (s : Storage) : Storage := Refbuf.dec this.content s

end SharedMessage

structure SharedReader where
  message : SharedMessage
  content : ℕ
  seekPos : UInt32

namespace SharedReader

def new (mess : SharedMessage) (s : Storage) : SharedReader × Storage :=
  let (message, s) := mess.copy s
  let (content, s) := message.getContentPtr s
  (⟨message, content, 0⟩, s)

def copy (other : SharedReader) (s : Storage) : SharedReader × Storage :=
  let (message, s) := other.message.copy s
  (⟨message, other.content, other.seekPos⟩, s)

/-- The implicit assignment of another reader, member by member. -/
def assign (this other : SharedReader) (s : Storage) : SharedReader × Storage :=
  let (message, s) := this.message.assign other.message s
  (⟨message, other.content, other.seekPos⟩, s)

def destroy (this : SharedReader) (s : Storage) : Storage := this.message.destroy s

end SharedReader

inductive Object where
  | message (m : SharedMessage)
  | reader (r : SharedReader)

namespace Object

def refbuf : Object → ℕ
  | message m => m.content
  | reader r => r.message.content

def destroy : Object → Storage → Storage
  | message m => m.destroy
  | reader r => r.destroy

end Object

/-- A program's objects by name, `none` for those destroyed.  The heap field of a
builder is only up to date while one of its methods runs. -/
structure Objects where
  storage : Storage
  objects : List (Option Object)
  builders : List (Option MessageBuilder)

/-- `construct` is the constructor called with a buffer fresh from `new char[]`,
filled with the content given; `readMessage none` is a receive that throws after the
allocation, whose buffer no one deletes. -/
inductive ObjectOp where
  | construct (m : Message)
  | readMessage (received : Option Message)
  | newBuilder (header : Int32) (initCap : UInt32)
  | build (builder : ℕ) (op : BuilderOp)
  | destroyBuilder (builder : ℕ)
  | copy (src : ℕ)
  | assign (dst src : ℕ)
  | getContentPtr (src : ℕ)
  | newReader (src : ℕ)
  | copyReader (src : ℕ)
  | assignReader (dst src : ℕ)
  | destroy (name : ℕ)

namespace Objects

def start (mem : ℕ → Mem) (refbufs : ℕ → Refbuf) : Objects :=
  ⟨⟨⟨mem, 0, []⟩, refbufs, 0, []⟩, [], []⟩

def object? (w : Objects) (name : ℕ) : Option Object := w.objects[name]?.join

def message? (w : Objects) (name : ℕ) : Option SharedMessage :=
  match w.object? name with
  | some (.message m) => some m
  | _ => none

def reader? (w : Objects) (name : ℕ) : Option SharedReader :=
  match w.object? name with
  | some (.reader r) => some r
  | _ => none

def builder? (w : Objects) (name : ℕ) : Option MessageBuilder := w.builders[name]?.join

def push (w : Objects) (x : Object) (s : Storage) : Objects :=
  { w with storage := s, objects := w.objects ++ [some x] }

def put (w : Objects) (name : ℕ) (x : Option Object) (s : Storage) : Objects :=
  { w with storage := s, objects := w.objects.set name x }

def onHeap (w : Objects) (heap : Heap) (builders : List (Option MessageBuilder)) : Objects :=
  { w with storage := { w.storage with heap := heap }, builders := builders }

def newMessage (w : Objects) (header : Int32) (length : UInt32) (buf : ℕ) : Objects :=
  let (m, s) := SharedMessage.new header length buf w.storage
  w.push (.message m) s

def receive (w : Objects) (m : Message) : Objects :=
  let heap := w.storage.heap
  let filled := { heap.alloc with mem := Function.update heap.mem heap.next m.content }
  (w.onHeap filled w.builders).newMessage m.header m.length heap.next

variable (o : ByteOrder)

def build (w : Objects) (name : ℕ) (b : MessageBuilder) (op : BuilderOp) : Objects :=
  let s := Building.step o ⟨{ b with heap := w.storage.heap }, []⟩ op
  let w := w.onHeap s.builder.heap (w.builders.set name (some s.builder))
  match s.made with
  | [] => w
  | mess :: _ => w.newMessage mess.header mess.length mess.content

/-- Operations on names that stand for nothing of the kind change nothing. -/
def step (w : Objects) : ObjectOp → Objects
  | .construct m => w.receive m
  | .readMessage (some m) => w.receive m
  | .readMessage none => w.onHeap w.storage.heap.alloc w.builders
  | .newBuilder header initCap =>
    let b := MessageBuilder.new w.storage.heap header initCap
    w.onHeap b.heap (w.builders ++ [some b])
  | .build name op =>
    match w.builder? name with
    | some b => w.build o name b op
    | none => w
  | .destroyBuilder name =>
    match w.builder? name with
    | some b => w.onHeap (w.storage.heap.free b.content) (w.builders.set name none)
    | none => w
  | .copy src =>
    match w.message? src with
    | some other =>
      let (m, s) := other.copy w.storage
      w.push (.message m) s
    | none => w
  | .assign dst src =>
    -- `if (this == &other)`
    if dst = src then w
    else match w.message? dst, w.message? src with
      | some this, some other =>
        let (m, s) := this.assign other w.storage
        w.put dst (some (.message m)) s
      | _, _ => w
  | .getContentPtr src =>
    match w.message? src with
    | some m => { w with storage := (m.getContentPtr w.storage).2 }
    | none => w
  | .newReader src =>
    match w.message? src with
    | some mess =>
      let (r, s) := SharedReader.new mess w.storage
      w.push (.reader r) s
    | none => w
  | .copyReader src =>
    match w.reader? src with
    | some other =>
      let (r, s) := other.copy w.storage
      w.push (.reader r) s
    | none => w
  | .assignReader dst src =>
    -- assigned to itself, the message stays as it is, and so does everything else
    if dst = src then w
    else match w.reader? dst, w.reader? src with
      | some this, some other =>
        let (r, s) := this.assign other w.storage
        w.put dst (some (.reader r)) s
      | _, _ => w
  | .destroy name =>
    match w.object? name with
    | some x => w.put name none (x.destroy w.storage)
    | none => w

def refs (w : Objects) : List (Option ℕ) := w.objects.map (Option.map Object.refbuf)

/-- The live messages that refer to a `Refbuf`, those inside readers included. -/
def referrers (w : Objects) (p : ℕ) : ℕ := Sharing.referrers w.refs p

/-- Every live object is one live message, or has one inside. -/
def live (w : Objects) : ℕ := w.objects.countP Option.isSome

/-- The `Refbuf` an operation gives up a reference to. -/
def drops (w : Objects) : ObjectOp → Option ℕ
  | .assign dst src =>
    if dst = src then none
    else match w.message? dst, w.message? src with
      | some this, some _ => some this.content
      | _, _ => none
  | .assignReader dst src =>
    if dst = src then none
    else match w.reader? dst, w.reader? src with
      | some this, some _ => some this.message.content
      | _, _ => none
  | .destroy name => (w.object? name).map Object.refbuf
  | _ => none

end Objects

end VmPlayback
