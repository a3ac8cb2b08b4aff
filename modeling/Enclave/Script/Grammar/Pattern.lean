import Enclave.Script.Grammar.Basic

/-!
# Patterns, parameters and bodies

What declarations and functions of all forms share: property keys, binding patterns, parameter
lists, and bodies that may open with directives.
-/
namespace Enclave.Script.Reader

/-- An assignment expression where nothing else can become of it. -/
def value (g : Grammar) (ctx : Context) : Reader Expr := do
  let p ← g.assign ctx
  pure p.expr

/-- Expressions with commas between them, up to the first that has none behind it. -/
def moreValues (g : Grammar) (ctx : Context) : Reader (List Expr) :=
  many (do if ← takeMark ctx "," then some <$> value g ctx else pure none) (ctx.room + 1)

/-- Expressions with commas between them; more than one are a sequence. -/
def expression (g : Grammar) (ctx : Context) : Reader Expr := do
  let first ← value g ctx
  let more ← moreValues g ctx
  pure (if more.isEmpty then first else .other)

/-- An expression between parentheses that belong to a statement. -/
def guardedExpression (g : Grammar) (ctx : Context) : Reader Expr := do
  expectMark ctx "("
  let e ← expression g ctx.withIn
  expectMark ctx ")"
  pure e

/-! ## Property keys -/

def propertyKey (g : Grammar) (ctx : Context) : Reader PropertyKey := do
  let t ← token
  match t.kind with
  | .name text _ | .string text _ => do
    advance ctx
    pure (.text text)
  | .number n => do
    advance ctx
    pure (.number n)
  | .bigNumber => do
    advance ctx
    pure .other
  | _ => do
    expectMark ctx "["
    let _ ← value g ctx.withIn
    expectMark ctx "]"
    pure .other

/-! ## Binding patterns -/

/-- A default after a target, if there is one. -/
def skipDefault (g : Grammar) (ctx : Context) : Reader Unit := do
  if ← takeMark ctx "=" then do
    let _ ← value g ctx
    pure ()
  else pure ()

def bindingElement (g : Grammar) (ctx : Context) : Reader Unit := do
  let _ ← g.pattern ctx
  skipDefault g ctx.withIn

/-- The elements of an array pattern after its opening mark. The element that takes all remaining
values seals the pattern: behind it there are at most places that are left out. -/
def arrayPattern (g : Grammar) (ctx : Context) : (room : Nat) → (isSealed : Bool) → Reader Unit
  | 0, _ => failure
  | room + 1, isSealed => do
    if ← takeMark ctx "]" then pure ()
    else if ← takeMark ctx "," then arrayPattern g ctx room isSealed
    else do
      refuseUnless (!isSealed)
      let takesRest ← takeMark ctx "..."
      if takesRest then do
        let _ ← g.pattern ctx
      else bindingElement g ctx
      if ← atMark "]" then advance ctx
      else do
        expectMark ctx ","
        refuseUnless (!(takesRest && (← atMark "]")))
        arrayPattern g ctx room takesRest

/-- A property of an object pattern: a key with an element, or any word that is both. -/
def patternProperty (g : Grammar) (ctx : Context) : Reader Unit := do
  let t ← token
  let _ ← propertyKey g ctx
  if ← takeMark ctx ":" then bindingElement g ctx
  else do
    refuseUnless t.isName
    skipDefault g ctx.withIn

def objectPattern (g : Grammar) (ctx : Context) : Reader Unit := do
  let _ ← commaList ctx "\x7d" do
    if ← takeMark ctx "..." then do
      let _ ← bindingName ctx
      refuseUnless (← atMark "\x7d")
    else patternProperty g ctx
  pure ()

/-- A name, or a pattern of names. -/
def bindingPattern (g : Grammar) (ctx : Context) : Reader (Option String) := do
  if ← takeMark ctx "[" then do
    arrayPattern g ctx (ctx.room + 1) false
    pure none
  else if ← takeMark ctx "\x7b" then do
    objectPattern g ctx
    pure none
  else some <$> bindingName ctx

/-! ## Parameters -/

inductive Parameter where
  /-- A name alone. -/
  | name
  /-- A pattern, or anything with a default. -/
  | pattern
  /-- All remaining arguments. -/
  | rest
  deriving DecidableEq

def parameter (g : Grammar) (ctx : Context) : Reader Parameter := do
  if ← takeMark ctx "..." then do
    let _ ← g.pattern ctx
    refuseUnless (← atMark ")")
    pure .rest
  else do
    let name? ← g.pattern ctx
    let hasDefault ← atMark "="
    skipDefault g ctx
    pure (if name?.isSome && !hasDefault then .name else .pattern)

def parameters (g : Grammar) (ctx : Context) : Reader (List Parameter) := do
  expectMark ctx "("
  commaList ctx ")" (parameter g ctx)

/-- Do the parameters leave it to the body whether the function is strict? -/
def areSimple (ps : List Parameter) : Bool :=
  ps.all (· == .name)

/-! ## Bodies -/

/-- Is the statement a text by itself? -/
def isDirective : Statement → Bool
  | .expression (.string _) => true
  | _ => false

/-- Statements up to an end. Says whether one of the texts at their front is the one that makes
code strict. -/
def items (g : Grammar) (isEnd : Token → Bool) (ctx : Context) :
    (room : Nat) → Reader (List Statement × Bool)
  | 0 => failure
  | room + 1 => do
    let t ← token
    if isEnd t then pure ([], false)
    else do
      let s ← g.item ctx
      let (rest, declaresStrict) ← items g isEnd ctx room
      pure (s :: rest, isDirective s && (t.isStrictText || declaresStrict))

/-- Statements that are strict if the token in front of them is the text that makes them so. -/
def strictItems (g : Grammar) (isEnd : Token → Bool) (ctx : Context) :
    Reader (List Statement × Bool) := do
  let t ← token
  items g isEnd { ctx with strict := ctx.strict || t.isStrictText } (ctx.room + 1)

/-- The body of a function. Only behind `simple` parameters it can declare itself strict. -/
def body (g : Grammar) (ctx : Context) (simple : Bool) : Reader Unit := do
  expectMark ctx "\x7b"
  let (_, declaresStrict) ← strictItems g Token.isClosed ctx
  refuseUnless (simple || !declaresStrict)
  expectMark ctx "\x7d"

/-- Accessors have fixed numbers of parameters. -/
inductive FunctionForm where
  | plain
  | getter
  | setter

def FunctionForm.accepts : FunctionForm → List Parameter → Bool
  | .plain, _ => true
  | .getter, ps => ps.isEmpty
  | .setter, ps => ps.length == 1 && ps.all (· != .rest)

/-- Parameters and a body. -/
def functionRest (g : Grammar) (ctx : Context) (form : FunctionForm) (yields awaits : Bool) :
    Reader Unit := do
  let ctx := ctx.function yields awaits
  let ps ← parameters g ctx.parameters
  refuseUnless (form.accepts ps)
  body g (ctx.body yields awaits) (areSimple ps)

/-- Parameters and body of a method. -/
def method (g : Grammar) (ctx : Context) (form : FunctionForm) (yields awaits : Bool) :
    Reader Unit :=
  functionRest g ctx.method form yields awaits

end Enclave.Script.Reader
