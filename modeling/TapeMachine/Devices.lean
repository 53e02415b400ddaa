import TapeMachine.Feed
import TapeMachine.Text.Encoding

/-!
Sources and sinks. What a source still has to deliver and what a sink has received is kept in one
place, the devices, so that two handles on the same stream see each other's effects.
-/

set_option autoImplicit false
set_option relaxedAutoImplicit false

namespace TapeMachine

/-- What has been written to a sink, and how often it was flushed. -/
structure Drain where
  bytes : Array UInt8
  flushes : Nat
  deriving DecidableEq, Repr

/-- The sort of a source: bytes in memory, a stream, or a list of prepared answers. -/
inductive SourceKind where
  | bytes
  | stream
  | script
  deriving DecidableEq, Repr

/-- A handle on a feed. -/
structure Source where
  kind : SourceKind
  feed : Nat
  deriving DecidableEq, Repr

/-- The sort of a sink: a buffer in memory, or a stream that is or is not flushed after each
byte. -/
inductive SinkKind where
  | buffer
  | stream (flush : Bool)
  deriving DecidableEq, Repr

/-- A handle on a drain. -/
structure Sink where
  kind : SinkKind
  drain : Nat
  deriving DecidableEq, Repr

/-- Why an argument makes no source: its text does not fit into bytes, or there is nothing where
bytes are needed. -/
inductive SourceError where
  | unencodable (cause : Text.EncodeError)
  | nothing
  deriving DecidableEq, Repr

def SourceError.message : SourceError → String
  | .unencodable cause => cause.message
  | .nothing => "cannot convert 'NoneType' object to bytes"

/-- What may be passed for a source: nothing, bytes, text with one byte for each character, an open
stream, or a source. -/
inductive Input where
  | none
  | bytes (data : List UInt8)
  | text (data : String)
  | stream (feed : Nat)
  | source (source : Source)
  deriving DecidableEq, Repr

/-- What may be passed for a sink: nothing, an open stream, or a sink. -/
inductive Output where
  | none
  | stream (drain : Nat)
  | sink (sink : Sink)
  deriving DecidableEq, Repr

/-- All feeds and drains, by number. -/
structure Devices where
  feeds : Array Feed
  drains : Array Drain
  deriving DecidableEq, Repr

namespace Devices

def empty : Devices := ⟨#[], #[]⟩

/-- Adds a feed and gives its number. -/
def addFeed (devices : Devices) (feed : Feed) : Devices × Nat :=
  ({ devices with feeds := devices.feeds.push feed }, devices.feeds.size)

/-- Adds an empty drain and gives its number. -/
def addDrain (devices : Devices) : Devices × Nat :=
  ({ devices with drains := devices.drains.push ⟨#[], 0⟩ }, devices.drains.size)

/-- What a source still has to deliver. -/
def pending (devices : Devices) (source : Source) : Feed :=
  devices.feeds.getD source.feed []

/-- What a sink has received. -/
def received (devices : Devices) (drain : Nat) : Drain :=
  devices.drains.getD drain ⟨#[], 0⟩

/-- Puts back what a source still has to deliver. -/
def setPending (devices : Devices) (source : Source) (feed : Feed) : Devices :=
  { devices with feeds := devices.feeds.setIfInBounds source.feed feed }

/-- Puts back what a sink has received, of which the last bytes are new. A stream that is flushed
has been flushed after each of them. -/
def setWritten (devices : Devices) (sink : Sink) (bytes : Array UInt8) : Devices :=
  let old := devices.received sink.drain
  let flushes :=
    match sink.kind with
    | .stream true => old.flushes + (bytes.size - old.bytes.size)
    | _ => old.flushes
  { devices with drains := devices.drains.setIfInBounds sink.drain ⟨bytes, flushes⟩ }

theorem pending_setPending {devices : Devices} {source : Source}
    (h : source.feed < devices.feeds.size) (feed : Feed) :
    (devices.setPending source feed).pending source = feed := by
  simp [setPending, pending, h]

theorem bytes_received_setWritten {devices : Devices} {sink : Sink}
    (h : sink.drain < devices.drains.size) (bytes : Array UInt8) :
    ((devices.setWritten sink bytes).received sink.drain).bytes = bytes := by
  simp [setWritten, received, h]

/-- Asks a source for one value. -/
def read (devices : Devices) (source : Source) : Devices × Option Int :=
  match devices.pending source with
  | [] => (devices, none)
  | answer :: rest => (devices.setPending source rest, answer)

/-- Gives one value to a sink, of which the lowest eight bits count. -/
def write (devices : Devices) (sink : Sink) (value : Int) : Devices :=
  devices.setWritten sink
    ((devices.received sink.drain).bytes.push (UInt8.ofNat (value % 256).toNat))

/-- A source over bytes in memory. -/
def bytesSource (devices : Devices) (bytes : List UInt8) : Devices × Source :=
  let (devices, feed) := devices.addFeed (Feed.ofBytes bytes)
  (devices, ⟨.bytes, feed⟩)

/-- A source over a stream that hands over its bytes one at a time. -/
def streamSource (devices : Devices) (bytes : List UInt8) : Devices × Source :=
  let (devices, feed) := devices.addFeed (Feed.ofChunks (bytes.map fun b ↦ [b]))
  (devices, ⟨.stream, feed⟩)

/-- A source over the bytes of a text, which has to fit into one byte for each character. -/
def textSource (devices : Devices) (text : String) : Except SourceError (Devices × Source) :=
  match Text.encodeLatin1 text.toList with
  | .ok bytes => .ok (devices.bytesSource bytes)
  | .error cause => .error (.unencodable cause)

/-- The source that an argument stands for. Nothing stands for a source without bytes. -/
def openSource (devices : Devices) : Input → Except SourceError (Devices × Source)
  | .none => .ok (devices.bytesSource [])
  | .bytes data => .ok (devices.bytesSource data)
  | .text data => devices.textSource data
  | .stream feed => .ok (devices, ⟨.stream, feed⟩)
  | .source source => .ok (devices, source)

/-- A new source over the bytes of an argument. Here nothing is not taken for no bytes. -/
def makeSource (devices : Devices) : Input → Except SourceError (Devices × Source)
  | .none => .error .nothing
  | input => devices.openSource input

/-- The sink that an argument stands for. -/
def openSink (devices : Devices) : Output → Devices × Sink
  | .none =>
    let (devices, drain) := devices.addDrain
    (devices, ⟨.buffer, drain⟩)
  | .stream drain => (devices, ⟨.stream true, drain⟩)
  | .sink sink => (devices, sink)

end Devices

end TapeMachine
