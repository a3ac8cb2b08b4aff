import Enclave.Script.Token
import Enclave.Script.Tree

/-!
# Reading with one token ahead

A reader consumes tokens from a cursor that stands on the next one, or refuses. The next token is
read as soon as the one before is consumed, in the mode of the code around that one. Readers of
nested constructs go through a `Grammar`, the set of readers one level further in, so that each
reader is a plain definition and the nesting is bounded in one place.
-/
namespace Enclave.Script

/-- The head of a loop around an expression. -/
inductive LoopHead where
  | none
  | plain
  | awaiting
  deriving DecidableEq

/-- What the surroundings of a construct allow in it. -/
structure Context where
  /-- Bounds every repetition; the length of the script is enough. -/
  room : Nat
  strict : Bool
  yields : Bool
  awaits : Bool
  staticBlock : Bool
  /-- The arguments of a call are out of reach, as in the initial value of a class field. -/
  field : Bool
  /-- No block and no function stands around the code. -/
  topLevel : Bool
  inFunction : Bool
  inParameters : Bool
  inClass : Bool
  /-- A function that is no arrow function stands around the code. -/
  ordinary : Bool
  superMember : Bool
  allowIn : Bool
  mayBreak : Bool
  mayContinue : Bool
  /-- Labels in force. -/
  labels : List String
  head : LoopHead

namespace Context

def script (room : Nat) : Context :=
  { room := room, strict := false, yields := false, awaits := false, staticBlock := false
    field := false, topLevel := true, inFunction := false, inParameters := false
    inClass := false, ordinary := false, superMember := false, allowIn := false
    mayBreak := false, mayContinue := false, labels := [], head := .none }

def mode (ctx : Context) : Mode :=
  ⟨ctx.strict, ctx.yields, ctx.awaits || ctx.staticBlock⟩

/-- Inside a function after its name. -/
def function (ctx : Context) (yields awaits : Bool) : Context :=
  { ctx with yields := yields, awaits := awaits, staticBlock := false }

/-- Inside the parameters of a function. -/
def parameters (ctx : Context) : Context :=
  { ctx with inParameters := true, inFunction := false }

/-- Inside the body of an arrow function, which shares its surroundings' receiver. -/
def arrow (ctx : Context) (awaits : Bool) : Context :=
  { ctx.function false awaits with
    inFunction := true, topLevel := false, mayBreak := false, mayContinue := false, labels := [] }

/-- Inside the body of a function of its own. -/
def body (ctx : Context) (yields awaits : Bool) : Context :=
  { ctx.arrow awaits with yields := yields, ordinary := true, allowIn := true }

/-- After the keyword of a function, which takes no part in the class around it. -/
def detached (ctx : Context) : Context :=
  { ctx with superMember := false, field := false }

/-- Inside a method. -/
def method (ctx : Context) : Context :=
  { ctx with superMember := true, field := false }

def withIn (ctx : Context) : Context :=
  { ctx with allowIn := true }

def withoutIn (ctx : Context) : Context :=
  { ctx with allowIn := false }

def block (ctx : Context) : Context :=
  { ctx with topLevel := false }

def loop (ctx : Context) : Context :=
  { ctx with mayBreak := true, mayContinue := true }

/-- Inside a statement that a break may leave. -/
def breakable (ctx : Context) : Context :=
  { ctx with mayBreak := true }

def label (ctx : Context) (name : String) : Context :=
  { ctx.breakable with labels := name :: ctx.labels }

end Context

abbrev Reader := StateT Token Option

/-- Operands that the null-coalescing operator does not mix with. -/
inductive Mixing where
  | free
  | coalescing
  | logical
  deriving DecidableEq

/-- Names that strict code does not bind. -/
def isRestricted (name : String) : Bool :=
  name == "eval" || name == "arguments"

/-- An expression with what the text around it may make of it. -/
structure Parsed where
  expr : Expr
  /-- It can be assigned to by itself. -/
  target : Bool := false
  /-- It is a literal that can be taken as a pattern of targets. -/
  pattern : Bool := false
  /-- It is an assignment that can be taken as a target with a default. -/
  defaulted : Bool := false
  /-- It is a name, or a literal that can be taken as a pattern of names. -/
  binding : Bool := false
  /-- It is an assignment that can be taken as a binding with a default. -/
  defaultedBinding : Bool := false
  /-- As a binding it would bind a name that strict code does not bind. -/
  restricted : Bool := false
  /-- It is an object literal with a default of its own, which only a pattern may hold. -/
  cover : Bool := false
  /-- It begins with an operator that does not go under a power. -/
  unary : Bool := false
  /-- It is an arrow function, which no operator takes as an operand. -/
  arrow : Bool := false
  mixing : Mixing := .free

namespace Parsed

/-- It can be an element of a pattern of targets. -/
def fitsPattern (p : Parsed) : Bool :=
  p.target || p.pattern || p.defaulted

/-- It can be an element of a pattern of names. -/
def fitsBinding (p : Parsed) : Bool :=
  p.binding || p.defaultedBinding

def isName (p : Parsed) : Bool :=
  match p.expr with
  | .name _ => true
  | _ => false

/-- A name as an expression. -/
def ofName (ctx : Context) (name : String) : Parsed :=
  { expr := .name name, target := !(ctx.strict && isRestricted name), binding := true
    restricted := isRestricted name }

end Parsed

/-- The readers one level further in. -/
structure Grammar where
  assign : Context → Reader Parsed
  unary : Context → Reader Parsed
  operand : Context → Reader Parsed
  fresh : Context → Reader Parsed
  statement : Context → Reader Statement
  item : Context → Reader Statement
  pattern : Context → Reader (Option String)

namespace Reader

def token : Reader Token := get

/-- The token after the present one. -/
def peek (ctx : Context) : Reader Token := do
  let t ← get
  match nextToken ctx.mode ctx.room false t.rest with
  | some next => pure next
  | none => failure

/-- Moves on to the token after the present one. -/
def advance (ctx : Context) : Reader Unit := do
  let next ← peek ctx
  set next

def refuseUnless (b : Bool) : Reader Unit :=
  if b then pure () else failure

end Reader

namespace Token

def isMark (t : Token) (mark : String) : Bool :=
  match t.kind with
  | .mark m => m == mark
  | _ => false

/-- A word that the grammar knows. -/
def isWord (t : Token) (word : String) : Bool :=
  match t.kind with
  | .name _ w => w == word
  | _ => false

def isName (t : Token) : Bool :=
  match t.kind with
  | .name _ _ => true
  | _ => false

/-- The text of a name. -/
def text? (t : Token) : Option String :=
  match t.kind with
  | .name text _ => some text
  | _ => none

/-- A name that can be referred to. -/
def isReference (t : Token) (mode : Mode) : Bool :=
  match t.kind with
  | .name _ word => !mode.reserves word
  | _ => false

def endsScript (t : Token) : Bool :=
  match t.kind with
  | .finish => true
  | _ => false

def isClosed (t : Token) : Bool :=
  t.isMark "\x7d"

/-- Does a statement end in front of this token, or with it? -/
def endsStatement (t : Token) : Bool :=
  t.afterLine || t.endsScript || t.isMark ";" || t.isClosed

/-- Is this the text that makes code strict? -/
def isStrictText (t : Token) : Bool :=
  match t.kind with
  | .string text plain => plain && text == "use strict"
  | _ => false

end Token

namespace Reader

def atMark (mark : String) : Reader Bool := do
  let t ← token
  pure (t.isMark mark)

def atWord (word : String) : Reader Bool := do
  let t ← token
  pure (t.isWord word)

/-- Consumes a mark if it is there. -/
def takeMark (ctx : Context) (mark : String) : Reader Bool := do
  if ← atMark mark then do
    advance ctx
    pure true
  else pure false

def takeWord (ctx : Context) (word : String) : Reader Bool := do
  if ← atWord word then do
    advance ctx
    pure true
  else pure false

def expectMark (ctx : Context) (mark : String) : Reader Unit := do
  refuseUnless (← takeMark ctx mark)

def expectWord (ctx : Context) (word : String) : Reader Unit := do
  refuseUnless (← takeWord ctx word)

/-- Reads one thing after the other until there is none. -/
def many {α : Type} (next : Reader (Option α)) : (room : Nat) → Reader (List α)
  | 0 => failure
  | room + 1 => do
    match ← next with
    | some a => do
      let rest ← many next room
      pure (a :: rest)
    | none => pure []

/-- Things with commas between them up to a closing mark, and whether a comma stands before it. -/
def listed {α : Type} (ctx : Context) (close : String) (element : Reader α) :
    (room : Nat) → Reader (List α × Bool)
  | 0 => failure
  | room + 1 => do
    if ← takeMark ctx close then pure ([], false)
    else do
      let a ← element
      if ← takeMark ctx close then pure ([a], false)
      else do
        expectMark ctx ","
        let (rest, trailing) ← listed ctx close element room
        pure (a :: rest, trailing || rest.isEmpty)

def commaList {α : Type} (ctx : Context) (close : String) (element : Reader α) :
    Reader (List α) :=
  Prod.fst <$> listed ctx close element (ctx.room + 1)

/-- A statement ends with a semicolon, or where a line or a block or the script ends. -/
def endStatement (ctx : Context) : Reader Unit := do
  if ← takeMark ctx ";" then pure ()
  else do
    let t ← token
    refuseUnless t.endsStatement

/-! ## Names -/

/-- A name that is referred to. -/
def reference (ctx : Context) : Reader String := do
  let t ← token
  match t.kind with
  | .name text word => do
    refuseUnless (!ctx.mode.reserves word && !(ctx.field && text == "arguments"))
    advance ctx
    pure text
  | _ => failure

/-- A name that is bound. The word that waits for a result is one wherever no code waits. -/
def bindingName (ctx : Context) : Reader String := do
  let t ← token
  match t.kind with
  | .name text word => do
    let mode := { ctx.mode with strict := ctx.strict && word != "await" }
    refuseUnless (!mode.reserves word && !(ctx.field && text == "arguments"))
    refuseUnless (!(mode.awaits && text == "await") && !(mode.yields && text == "yield"))
    refuseUnless (!(ctx.strict && isRestricted text))
    advance ctx
    pure text
  | _ => failure

end Reader
end Enclave.Script
