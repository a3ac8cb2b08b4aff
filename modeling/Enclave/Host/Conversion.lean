import Enclave.Boundary.Entry
import Enclave.Host.Error
import Enclave.Host.Value

/-!
# Values and records

The host's side of the boundary is strict: a record that is not a value is an error with a cause,
and text with a zero inside is not sent. The newest entry is the reference behind a value or a
record that changes owner.
-/
namespace Enclave

/-- Text as it is sent. -/
def sentText (s : String) : Except HostError Text.Bytes :=
  let bytes := Text.encode s
  if bytes.contains 0 then .error (.interiorZero s) else .ok bytes

namespace Value

/-- The value that a record stands for. -/
def ofRecord (r : Record) : Except HostError Value :=
  match r.kind? with
  | none => .error (.malformed .unknownCode)
  | some .null => .ok null
  | some .number => .ok (number r.number)
  | some .bool => .ok (bool (r.boolean != 0))
  | some .string =>
    match r.text with
    | none => .error (.malformed .missingText)
    | some t =>
      match Text.decode? (Text.untilZero t.bytes) with
      | some s => .ok (string s)
      | none => .error (.malformed .brokenText)
  | some kind =>
    match r.handle with
    | some id => .ok (handle kind id)
    | none => .error (.malformed .missingHandle)

/-- The record that lends the value: text lies in no block. -/
def lend (v : Value) : Except HostError Record :=
  match v with
  | scalar .null => .ok .null
  | scalar (.number n) => .ok (.ofNumber n)
  | scalar (.bool b) => .ok (.ofBool b)
  | scalar (.string s) => (sentText s).map fun bytes => .ofText ⟨bytes, none⟩
  | handle kind id => .ok (.ofHandle kind id)

end Value

namespace Act

/-- The newest entry of a value that is not kept is null. -/
def clearScalar (v : Value) : Act Unit :=
  match v with
  | .scalar _ => do
    drop
    push .null
  | .handle _ _ => pure ()

/-- A value with a reference of its own, from a record that keeps its own. -/
def copyRecord (r : Record) : Act (Except HostError Value) :=
  match Value.ofRecord r with
  | .ok v => do
    share v.slot
    pure (.ok v)
  | .error e => pure (.error e)

/-- The newest entry of a value that is kept is what the value owns. -/
def keepScalar (v : Value) : Act Unit :=
  match v with
  | .scalar s => do
    drop
    push s
  | .handle _ _ => pure ()

/-- Takes over a record that was given out: its reference is adopted, its text copied and the
block given back. A record that is no value gives null. -/
def takeOver (r : Record) : Act Value := do
  let v := (Value.ofRecord r).toOption.getD .null
  keepScalar v
  freeText r.textBlock?
  pure v

/-- Hands a value over to a call that consumes it. Text that cannot be sent is dropped. -/
def handOver (v : Value) : Act (Except HostError Record) :=
  match v.lend with
  | .ok r => do
    clearScalar v
    pure (.ok r)
  | .error e => do
    drop
    pure (.error e)

/-- The record of a result: text lies in a block. -/
def resultRecord : Value → Act Record
  | .scalar (.string s) => Record.ofText <$> allocText s
  | .scalar (.number n) => pure (.ofNumber n)
  | .scalar (.bool b) => pure (.ofBool b)
  | .scalar .null => pure .null
  | .handle kind id => pure (.ofHandle kind id)

/-- Hands a value back to the runtime as the result of a call. -/
def handBack (v : Value) : Act Record := do
  let r ← resultRecord v
  clearScalar v
  pure r

end Act
end Enclave
