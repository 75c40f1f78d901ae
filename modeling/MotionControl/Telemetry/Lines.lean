import MotionControl.Telemetry.Publisher

/-!
# Telemetry as lines of text

- `LineWriter`: a place that takes text character by character and may refuse one.
- `LineWriter.publish`: writes a record, its line end, and asks for it to be kept.

The three parts are separate, so that a failure leaves what was written before it.
-/

namespace MotionControl

/-- A place that takes text.  Every operation gives the state after it, also when it
fails; the reason of a failure is a text. -/
structure LineWriter (τ : Type) where
  put : Char → τ → Except String Unit × τ
  flush : τ → Except String Unit × τ

namespace LineWriter

variable {τ : Type}

/-- Writes characters until one is refused. -/
def write (w : LineWriter τ) : List Char → τ → Except String Unit × τ
  | [], state => (.ok (), state)
  | c :: rest, state =>
    match w.put c state with
    | (.ok (), state) => w.write rest state
    | (.error reason, state) => (.error reason, state)

/-- Writes a snapshot as a line. -/
def publish (w : LineWriter τ) (s : Snapshot Float) (state : τ) : Except SinkError Unit × τ :=
  match w.write s.record.toList state with
  | (.error reason, state) => (.error (.record reason), state)
  | (.ok (), state) =>
    match w.write ['\n'] state with
    | (.error reason, state) => (.error (.line reason), state)
    | (.ok (), state) =>
      match w.flush state with
      | (.error reason, state) => (.error (.line reason), state)
      | (.ok (), state) => (.ok (), state)

/-- The sink that writes lines. -/
def sink (w : LineWriter τ) : TelemetrySink Float τ := ⟨w.publish⟩

/-- A buffer that takes everything. -/
def buffer : LineWriter String where
  put c written := (.ok (), written.push c)
  flush written := (.ok (), written)

/-- A place with room for so many characters, and after that for none. -/
def limited (flushes : Bool) : LineWriter Nat where
  put _
    | 0 => (.error "gone", 0)
    | room + 1 => (.ok (), room)
  flush room := (if flushes then .ok () else .error "gone", room)

end LineWriter

end MotionControl
