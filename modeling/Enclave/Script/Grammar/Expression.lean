import Enclave.Script.Grammar.Class
import Enclave.Script.Grammar.Operator

/-!
# Expressions

Readers for expressions, from literals up to assignments. What is read between parentheses may
turn out to be the parameters of an arrow function, and a literal may turn out to be a pattern, so
readers say what a piece can still become.
-/
namespace Enclave.Script

/-- An element of a list of expressions. -/
structure Argument where
  value : Parsed
  spread : Bool

/-- Elements with commas between them; `trailing` when a comma stands behind the last one, and
nothing in place of an element that was left out. -/
structure Group where
  elements : List (Option Argument)
  trailing : Bool

namespace Group

/-- Does every element pass, with an own test for one that takes all remaining values? -/
def all (element rest : Parsed → Bool) (g : Group) : Bool :=
  check g.elements
where
  check : List (Option Argument) → Bool
    | [] => true
    | none :: more => check more
    | some a :: more =>
      if a.spread then rest a.value && more.isEmpty && !g.trailing
      else element a.value && check more

def values (g : Group) : List Argument :=
  g.elements.filterMap id

def items (g : Group) : Items :=
  .ofList (g.elements.map fun element =>
    element.map fun a => if a.spread then none else some a.value.expr)

def hasCover (g : Group) : Bool :=
  g.values.any (·.value.cover)

def isRestricted (g : Group) : Bool :=
  g.values.any (·.value.restricted)

/-- Can the elements be parameters? -/
def fitsParameters (strict : Bool) (g : Group) : Bool :=
  g.all Parsed.fitsBinding Parsed.binding && !(strict && g.isRestricted)

/-- Are the elements names alone? -/
def isSimple (g : Group) : Bool :=
  g.values.all fun a => a.value.isName && !a.spread

end Group

namespace Reader

/-! ## Lists of expressions -/

def argument (g : Grammar) (ctx : Context) : Reader Argument := do
  let spread ← takeMark ctx "..."
  let p ← g.assign ctx.withIn
  pure ⟨p, spread⟩

def arguments (g : Grammar) (ctx : Context) : Reader Items := do
  expectMark ctx "("
  let (elements, trailing) ← listed ctx ")" (some <$> argument g ctx) (ctx.room + 1)
  pure (Group.items ⟨elements, trailing⟩)

/-! ## Arrow functions -/

/-- The body of an arrow function: a block, which is no place for declaring strict code, or an
expression. Says whether it is a block. -/
def arrowBody (g : Grammar) (ctx : Context) (awaits simple : Bool) : Reader Bool := do
  let inner := ctx.arrow awaits
  if ← takeMark inner "\x7b" then do
    let (_, declaresStrict) ← items g Token.isClosed inner (ctx.room + 1)
    refuseUnless (simple || !declaresStrict)
    expectMark inner "\x7d"
    pure true
  else do
    let _ ← value g inner
    pure false

def arrowFunction : Parsed :=
  { expr := .other, arrow := true }

/-- An arrow function with one name as its parameter, from its arrow on. -/
def shortArrow (g : Grammar) (ctx : Context) (awaits : Bool) : Reader Parsed := do
  expectMark ctx "=>"
  let _ ← arrowBody g ctx awaits true
  pure arrowFunction

/-- An arrow behind an element of a list, where the list begins with a name: all elements up to
here are its parameters. Other lists skip the arrow. -/
def innerArrow (g : Grammar) (ctx : Context) (list : Group) : Reader (List (Option Argument)) := do
  match list.elements.head?.join with
  | some first =>
    if first.value.isName then do
      refuseUnless (list.fitsParameters ctx.strict)
      let _ ← arrowBody g ctx false list.isSimple
      pure [some ⟨arrowFunction, false⟩]
    else pure []
  | none => pure []

/-- The remaining elements of a list between parentheses, up to its closing mark. The elements in
front of them are `before`, the last one first. -/
def groupRest (g : Grammar) (ctx : Context) :
    (room : Nat) → (before : List (Option Argument)) → Reader Group
  | 0, _ => failure
  | room + 1, before => do
    if ← takeMark ctx ")" then pure ⟨before.reverse, false⟩
    else do
      let a ← argument g ctx
      let read := some a :: before
      let more ← if ← takeMark ctx "=>" then innerArrow g ctx ⟨read.reverse, false⟩ else pure []
      let read := more ++ read
      if ← takeMark ctx ")" then pure ⟨read.reverse, false⟩
      else do
        expectMark ctx ","
        if ← takeMark ctx ")" then pure ⟨read.reverse, true⟩ else groupRest g ctx room read

/-- A list between parentheses, from its opening mark on. -/
def group (g : Grammar) (ctx : Context) : Reader Group := do
  expectMark ctx "("
  groupRest g ctx (ctx.room + 1) []

/-- A list as a parenthesised expression. -/
def parenthesised (list : Group) : Reader Parsed := do
  match list.elements with
  | [] => failure
  | [some ⟨p, false⟩] => pure { expr := .paren p.expr, target := p.target }
  | _ => do
    refuseUnless (list.values.all fun a => !a.spread)
    pure { expr := .paren .other }

/-- A list between parentheses with what it makes together with the word in front of it, if there
is one: the parameters of an arrow function, the arguments of a call, or an expression. -/
def groupOperand (g : Grammar) (ctx : Context) (mayArrow : Bool) (callee? : Option String) :
    Reader Parsed := do
  let list ← group g ctx.withIn
  let t ← token
  if t.isMark "=>" then do
    refuseUnless (mayArrow && !t.afterLine)
    refuseUnless (list.fitsParameters ctx.strict)
    advance ctx
    let isBlock ← arrowBody g ctx callee?.isSome list.isSimple
    let next ← token
    refuseUnless (!(isBlock && isInfixMark next))
    pure arrowFunction
  else do
    refuseUnless (!list.hasCover)
    match callee? with
    | some name => pure { expr := .call (.name name) list.items }
    | none => parenthesised list

/-! ## Literals -/

def arrayLiteral (g : Grammar) (ctx : Context) : Reader Parsed := do
  expectMark ctx "["
  let element := do
    if ← atMark "," then pure none else some <$> argument g ctx
  let (elements, trailing) ← listed ctx "]" element (ctx.room + 1)
  let list : Group := ⟨elements, trailing⟩
  pure
    { expr := .array list.items
      pattern := list.all Parsed.fitsPattern fun p => p.target || p.pattern
      binding := list.all Parsed.fitsBinding Parsed.binding
      restricted := list.isRestricted }

/-- A property of an object literal: how it extends the literal, and its value, which is no
element of any pattern if the property is a method. -/
structure Property where
  extend : Properties → Properties
  value : Argument

def methodProperty (g : Grammar) (ctx : Context) (form : FunctionForm) (yields awaits : Bool) :
    Reader Property := do
  method g ctx form yields awaits
  pure ⟨.other, { expr := .other }, false⟩

/-- A method behind a word that marks it. -/
def markedProperty (g : Grammar) (ctx : Context) (word : Option String) : Reader Property := do
  let yields ← if word == some "async" then takeMark ctx "*" else pure false
  let _ ← propertyKey g ctx
  if word == some "async" then methodProperty g ctx .plain yields true
  else if word == some "get" then methodProperty g ctx .getter false false
  else if word == some "set" then methodProperty g ctx .setter false false
  else failure

/-- A property that is written as a word alone, which may be any word. With a default it makes
sense in a pattern only. -/
def shorthandProperty (g : Grammar) (ctx : Context) (name : String) : Reader Property := do
  let p := { Parsed.ofName ctx name with target := true }
  if ← takeMark ctx "=" then do
    let _ ← value g ctx.withIn
    pure ⟨.other, { p with expr := .other, cover := true }, false⟩
  else pure ⟨.shorthand name, p, false⟩

/-- A property after its key, which began with the token `start`. -/
def propertyRest (g : Grammar) (ctx : Context) (start : Token) (key : PropertyKey) :
    Reader Property := do
  if ← takeMark ctx ":" then do
    let p ← g.assign ctx.withIn
    pure ⟨.keyed key p.expr, { p with cover := false }, false⟩
  else if ← atMark "(" then methodProperty g ctx .plain false false
  else do
    let t ← token
    match start.text? with
    | some name =>
      if ["=", ",", "\x7d"].any t.isMark then shorthandProperty g ctx name
      else markedProperty g ctx (some name)
    | none => failure

def property (g : Grammar) (ctx : Context) : Reader Property := do
  if ← takeMark ctx "..." then do
    let p ← g.assign ctx.withIn
    pure ⟨.spread, { p with cover := false }, true⟩
  else if ← takeMark ctx "*" then do
    let _ ← propertyKey g ctx
    methodProperty g ctx .plain true false
  else do
    let start ← token
    let key ← propertyKey g ctx
    propertyRest g ctx start key

def objectLiteral (g : Grammar) (ctx : Context) : Reader Parsed := do
  expectMark ctx "\x7b"
  let (properties, trailing) ← listed ctx "\x7d" (property g ctx) (ctx.room + 1)
  let list : Group := ⟨properties.map fun p => some p.value, trailing⟩
  pure
    { expr := .object (properties.foldr (fun p rest => p.extend rest) .nil)
      pattern := list.all Parsed.fitsPattern fun p => p.target || p.pattern
      binding := list.all Parsed.fitsBinding fun p => p.isName
      restricted := list.isRestricted
      cover := list.hasCover }

/-- A template from its first stretch on. A tagged one may hold broken escapes. -/
def template (g : Grammar) (ctx : Context) (tagged : Bool) : (room : Nat) → Reader Unit
  | 0 => failure
  | room + 1 => do
    let t ← token
    match t.kind with
    | .template ends valid => do
      refuseUnless (tagged || valid)
      advance ctx
      if ends then pure ()
      else do
        let _ ← expression g ctx.withIn
        let close ← token
        refuseUnless close.isClosed
        match readTemplate ctx.room close.rest with
        | some (ends, valid, rest) => do
          set { close with kind := .template ends valid, rest := rest }
          template g ctx tagged room
        | none => failure
    | _ => failure

/-- The present slash opens a regular expression. -/
def regularExpression (ctx : Context) : Reader Parsed := do
  let t ← token
  match readRegex ctx.room (t.start.drop 1) with
  | some rest => do
    set { t with rest := rest }
    advance ctx
    pure { expr := .other }
  | none => failure

/-- A function from its keyword on; its name belongs to its inside. -/
def functionExpression (g : Grammar) (ctx : Context) (isAsync : Bool) : Reader Parsed := do
  advance ctx
  let yields ← takeMark ctx "*"
  let inner := { ctx.detached with yields := yields, awaits := isAsync }
  let t ← token
  if t.isReference inner.mode then do
    let _ ← bindingName inner
  functionRest g ctx.detached .plain yields isAsync
  pure { expr := .other }

/-! ## Members and calls -/

/-- What follows the point of a member access. -/
def memberName (ctx : Context) : Reader MemberKey := do
  let t ← token
  match t.kind with
  | .name text _ => do
    advance ctx
    pure (.name text)
  | .privateName _ => do
    advance ctx
    pure .hidden
  | _ => failure

def computedKey (g : Grammar) (ctx : Context) : Reader MemberKey := do
  expectMark ctx "["
  let e ← expression g ctx.withIn
  expectMark ctx "]"
  pure (.computed e)

/-- A member of an operand; in an optional chain it is no target. -/
def memberOf (p : Parsed) (chained : Bool) (key : MemberKey) : Parsed :=
  if chained then { expr := .other } else { expr := .member p.expr key, target := true }

/-- The first link of an optional chain, from its point on. -/
def optionalLink (g : Grammar) (ctx : Context) : Reader Unit := do
  expectMark ctx "."
  if ← atMark "(" then do
    let _ ← arguments g ctx
  else if ← atMark "[" then do
    let _ ← computedKey g ctx
  else do
    let _ ← memberName ctx

/-- Member accesses and calls after an operand. A question mark with a point behind it makes a
chain of all that follows. -/
def links (g : Grammar) (ctx : Context) (calls : Bool) :
    (room : Nat) → (chained : Bool) → Parsed → Reader Parsed
  | 0, _, _ => failure
  | room + 1, chained, p => do
    let t ← token
    if t.isMark "." then do
      advance ctx
      let key ← memberName ctx
      links g ctx calls room chained (memberOf p chained key)
    else if t.isMark "[" then do
      let key ← computedKey g ctx
      links g ctx calls room chained (memberOf p chained key)
    else if t.isMark "(" && calls then do
      let args ← arguments g ctx
      links g ctx calls room chained { expr := if chained then .other else .call p.expr args }
    else if t.isMark "?" then do
      let next ← peek ctx
      if next.isMark "." then do
        refuseUnless calls
        advance ctx
        optionalLink g ctx
        links g ctx calls room true { expr := .other }
      else pure p
    else
      match t.kind with
      | .template _ _ => do
        refuseUnless (!chained)
        template g ctx true (ctx.room + 1)
        links g ctx calls room chained { expr := .other }
      | _ => pure p

/-- The receiver's base class: its members in methods, itself wherever it can be called. -/
def superOperand (g : Grammar) (ctx : Context) (calls : Bool) : Reader Parsed := do
  advance ctx
  if ← atMark "(" then do
    refuseUnless calls
    let _ ← arguments g ctx
    pure { expr := .specialCall }
  else do
    refuseUnless ctx.superMember
    let key ← if ← takeMark ctx "." then memberName ctx else computedKey g ctx
    match key with
    | .hidden => failure
    | _ => pure { expr := .other, target := true }

/-- An import inside an expression is a call, perhaps of one of its phases. -/
def importCall (g : Grammar) (ctx : Context) : Reader Parsed := do
  advance ctx
  if ← takeMark ctx "." then do
    let t ← token
    refuseUnless (t.text? == some "source" || t.text? == some "defer")
    advance ctx
  let _ ← arguments g ctx
  pure { expr := .specialCall }

/-- A new instance, or the target of the construction in progress. -/
def construction (g : Grammar) (ctx : Context) (operand : Reader Parsed) : Reader Parsed := do
  advance ctx
  if ← takeMark ctx "." then do
    refuseUnless (ctx.ordinary || ctx.inParameters || ctx.inClass)
    expectWord ctx "target"
    pure { expr := .other }
  else do
    let callee ← if ← atWord "new" then g.fresh ctx else operand
    let callee ← links g ctx false (ctx.room + 1) false callee
    let args ← if ← atMark "(" then arguments g ctx else pure .nil
    pure { expr := .construct callee.expr args }

/-! ## Operands -/

/-- A name, or an arrow function that begins with one where one may stand. -/
def nameOperand (g : Grammar) (ctx : Context) (mayArrow : Bool) : Reader Parsed := do
  let name ← reference ctx
  let t ← token
  if mayArrow && name == "async" && !t.afterLine && t.isReference ctx.mode then
    if ctx.head != .none && t.isWord "of" && !(← peek ctx).isMark "=>" then do
      refuseUnless (ctx.head == .awaiting)
      pure (Parsed.ofName ctx name)
    else do
      let _ ← bindingName ctx
      shortArrow g ctx true
  else if mayArrow && !t.afterLine && t.isMark "=>" then do
    refuseUnless (!(ctx.strict && isRestricted name))
    shortArrow g ctx false
  else pure (Parsed.ofName ctx name)

/-- An operand that begins with the word that marks functions as asynchronous. -/
def asyncOperand (g : Grammar) (ctx : Context) (mayArrow : Bool) : Reader Parsed := do
  let t ← token
  let next ← peek ctx
  if next.isWord "function" && !next.afterLine then do
    advance ctx
    functionExpression g ctx true
  else if mayArrow && next.isMark "(" && !next.afterLine then do
    advance ctx
    groupOperand g ctx true t.text?
  else nameOperand g ctx mayArrow

/-- A word as an operand: a keyword that opens one, or a name. -/
def wordOperand (g : Grammar) (ctx : Context) (mayArrow calls : Bool) : Reader Parsed := do
  let t ← token
  if t.isWord "null" then do
    advance ctx
    pure { expr := .null }
  else if t.isWord "true" then do
    advance ctx
    pure { expr := .bool true }
  else if t.isWord "false" then do
    advance ctx
    pure { expr := .bool false }
  else if t.isWord "this" then do
    advance ctx
    pure { expr := .other }
  else if t.isWord "function" then functionExpression g ctx false
  else if t.isWord "class" then do
    classForm g ctx false
    pure { expr := .other }
  else if t.isWord "super" then superOperand g ctx calls
  else if t.isWord "import" then importCall g ctx
  else if t.isWord "async" then asyncOperand g ctx mayArrow
  else nameOperand g ctx mayArrow

/-- An operand without what may follow it, other than a construction. An arrow function is one
where it `mayArrow`, at the very front of an assignment. -/
def simpleOperand (g : Grammar) (ctx : Context) (mayArrow calls : Bool) : Reader Parsed := do
  let t ← token
  match t.kind with
  | .number n => do
    advance ctx
    pure { expr := .number n }
  | .bigNumber | .privateName _ => do
    advance ctx
    pure { expr := .other }
  | .string s _ => do
    advance ctx
    pure { expr := .string s }
  | .template _ _ => do
    template g ctx false (ctx.room + 1)
    pure { expr := .other }
  | .mark "#" => do
    advance ctx
    let t ← token
    refuseUnless t.isName
    advance ctx
    pure { expr := .other }
  | .mark "(" => groupOperand g ctx mayArrow none
  | .mark "[" => arrayLiteral g ctx
  | .mark "\x7b" => objectLiteral g ctx
  | .mark "/" | .mark "/=" => regularExpression ctx
  | .name _ _ => wordOperand g ctx mayArrow calls
  | _ => failure

/-- A construction with its keyword. -/
def fresh (g : Grammar) (ctx : Context) : Reader Parsed :=
  construction g ctx (simpleOperand g ctx false false)

/-- An operand with its member accesses and calls. What was read of it already is `first`. -/
def operand (g : Grammar) (ctx : Context) (first : Option Parsed) : Reader Parsed := do
  let p ← match first with
    | some p => pure p
    | none => if ← atWord "new" then fresh g ctx else simpleOperand g ctx false true
  links g ctx true (ctx.room + 1) false p

/-! ## Operators -/

/-- An operand that may be counted up or down afterwards. -/
def updated (g : Grammar) (ctx : Context) (first : Option Parsed) : Reader Parsed := do
  let p ← operand g ctx first
  let t ← token
  if (t.isMark "++" || t.isMark "--") && !t.afterLine then do
    refuseUnless p.target
    advance ctx
    pure { expr := .update (t.isMark "++") false p.expr }
  else pure p

/-- The word that waits for a result, with its operand. It waits at the top of no script, in no
function but an asynchronous one, and in no parameters; in front of a closing mark it is a name
where it does not wait. -/
def awaited (g : Grammar) (ctx : Context) : Reader Parsed := do
  advance ctx
  let t ← token
  if !ctx.awaits && (t.isMark ")" || t.isMark "]") then pure (Parsed.ofName ctx "await")
  else do
    refuseUnless (!ctx.topLevel && !(ctx.inFunction && !ctx.awaits))
    refuseUnless (!(ctx.inParameters && !ctx.inFunction))
    let _ ← g.unary ctx
    pure { expr := .other, unary := true }

def unary (g : Grammar) (ctx : Context) (first : Option Parsed) : Reader Parsed := do
  let t ← token
  if first.isSome then updated g ctx first
  else if t.isMark "++" || t.isMark "--" then do
    advance ctx
    let p ← g.unary ctx
    refuseUnless p.target
    pure { expr := .update (t.isMark "++") true p.expr }
  else if t.isWord "await" then awaited g ctx
  else
    match unaryOperator? t with
    | some op => do
      advance ctx
      let p ← g.unary ctx
      refuseUnless (!(ctx.strict && op == .delete && p.isName))
      pure { expr := .unary op p.expr, unary := true }
    | none => updated g ctx none

/-- Operands with operators between them, after the operand `right` and with the earlier ones
waiting. -/
def operations (g : Grammar) (ctx : Context) :
    (room : Nat) → (waiting : List (Parsed × Operator)) → (right : Parsed) → Reader Parsed
  | 0, _, _ => failure
  | room + 1, waiting, right => do
    let t ← token
    match operator? ctx t with
    | some op => do
      refuseUnless (!(op.level == powerLevel && right.unary))
      let (waiting, left) ← liftM (Parsed.settle op.threshold waiting right)
      advance ctx
      let next ← unary g ctx none
      operations g ctx room ((left, op) :: waiting) next
    | none => do
      let (_, p) ← liftM (Parsed.settle 0 waiting right)
      pure p

def conditional (g : Grammar) (ctx : Context) (first : Option Parsed) : Reader Parsed := do
  let start ← unary g ctx first
  let test ← operations g ctx (ctx.room + 1) [] start
  if ← takeMark ctx "?" then do
    let _ ← value g ctx.withIn
    expectMark ctx ":"
    let _ ← value g ctx
    pure { expr := .other }
  else pure test

/-! ## Assignments -/

def targetOf : Expr → Target
  | .name x => .name x
  | .member target key => .member target key
  | _ => .other

/-- An assignment, or what would be its target. As a binding with a default its target is a name
or any pattern. -/
def assignment (g : Grammar) (ctx : Context) (first : Option Parsed) : Reader Parsed := do
  let p ← conditional g ctx first
  let t ← token
  match assignOperator? t with
  | some op => do
    refuseUnless (p.target || (op == .set && p.pattern))
    advance ctx
    let right ← value g ctx
    pure
      { expr := .assign (targetOf p.expr) op right
        defaulted := op == .set
        defaultedBinding := op == .set && (p.isName || p.pattern)
        restricted := p.restricted }
  | none => pure p

/-- A yield from its keyword on. -/
def yielded (g : Grammar) (ctx : Context) : Reader Parsed := do
  advance ctx
  refuseUnless (!(ctx.inParameters && !ctx.inFunction))
  let t ← token
  if t.endsStatement || [")", "]", ",", ":"].any t.isMark || t.isWord "in" then
    pure { expr := .other }
  else do
    let _ ← takeMark ctx "*"
    let _ ← value g ctx
    pure { expr := .other }

/-- May the present token open an arrow function? -/
def opensArrow (t : Token) : Bool :=
  match t.kind with
  | .name _ word => !reservedWords.contains word && word != "let" && word != "await"
  | _ => t.isMark "("

/-- An expression without a comma outside of parentheses. -/
def assign (g : Grammar) (ctx : Context) : Reader Parsed := do
  let t ← token
  if ctx.yields && t.isWord "yield" then yielded g ctx
  else if opensArrow t then do
    let p ← simpleOperand g ctx true true
    if p.arrow then pure p else assignment g ctx (some p)
  else assignment g ctx none

end Reader
end Enclave.Script
