import Enclave.Slot
import Enclave.Text.Bytes

/-!
# Transport records

Every value crosses the boundary as one flat record: a kind code and one field for each way to
carry a payload, of which only the field that belongs to the kind counts. A record owns nothing by
itself; each call says who owns the text and the reference that it mentions.
-/
namespace Enclave

/-- Text on its way: its bytes, and the block of the boundary's allocator that holds them, if one
does. Text without a block is lent. -/
structure TextRef where
  bytes : Text.Bytes
  block : Option Nat
  deriving DecidableEq, Repr

structure Record where
  code : Int
  number : Float
  boolean : Int
  text : Option TextRef
  handle : Option CellId

namespace Record

def null : Record :=
  ⟨Kind.null.code, 0.0, 0, none, none⟩

instance : Inhabited Record := ⟨null⟩

def ofNumber (n : Float) : Record :=
  { null with code := Kind.number.code, number := n }

def ofBool (b : Bool) : Record :=
  { null with code := Kind.bool.code, boolean := if b then 1 else 0 }

def ofText (t : TextRef) : Record :=
  { null with code := Kind.string.code, text := some t }

def ofHandle (kind : Kind) (id : CellId) : Record :=
  { null with code := kind.code, handle := some id }

/-- The kind, unless the code is unknown. -/
def kind? (r : Record) : Option Kind :=
  Kind.ofCode? r.code

end Record
end Enclave
