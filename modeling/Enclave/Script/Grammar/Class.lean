import Enclave.Script.Grammar.Pattern

/-!
# Classes

The members of a class. Only their form is checked, since classes are recognised and not
evaluated. All code in a class is strict, from the keyword up to the token behind the class.
-/
namespace Enclave.Script.Reader

def isNamed (name : String) : PropertyKey → Bool
  | .text s => s == name
  | _ => false

/-- Does the word before make up a whole member together with what follows? -/
def endsKey : Reader Bool := do
  let t ← token
  pure (["(", "=", ";", "\x7d"].any t.isMark)

/-- The key of a member. -/
def memberKey (g : Grammar) (ctx : Context) : Reader PropertyKey := do
  let t ← token
  match t.kind with
  | .privateName text => do
    refuseUnless (text != "constructor")
    advance ctx
    pure .other
  | _ => propertyKey g ctx

/-- A field after its key, with or without an initial value. -/
def field (g : Grammar) (ctx : Context) (key : PropertyKey) : Reader Unit := do
  refuseUnless (!isNamed "constructor" key)
  let inner := { ctx.withIn with field := true }
  skipDefault g inner
  endStatement inner

/-- The constructor of a class after its key. Its parameters belong to the class around it. -/
def constructorRest (g : Grammar) (ctx : Context) : Reader Unit := do
  let ps ← parameters g ctx
  body g (ctx.body false false) (areSimple ps)

/-- A method with a word or a mark in front of its key. It is no constructor. -/
def markedMethod (g : Grammar) (ctx : Context) (form : FunctionForm) (yields awaits : Bool) :
    Reader Unit := do
  let key ← memberKey g ctx
  refuseUnless (!isNamed "constructor" key)
  method g ctx form yields awaits

/-- A member that begins with a key. The words in front of the key of a method may turn out to be
keys themselves. Says whether the member is the constructor. -/
def keyedMember (g : Grammar) (ctx : Context) (isStatic : Bool) : Reader Bool := do
  let start ← token
  let key ← memberKey g ctx
  if ← atMark "(" then
    if isNamed "constructor" key then do
      refuseUnless (!isStatic)
      constructorRest g ctx
      pure true
    else do
      method g ctx .plain false false
      pure false
  else do
    let t ← token
    let accessor? : Option FunctionForm :=
      if (t.afterLine && t.isMark "*") || (← endsKey) then none
      else if start.text? == some "get" then some .getter
      else if start.text? == some "set" then some .setter
      else none
    match accessor? with
    | some form => markedMethod g ctx form false false
    | none =>
      if t.endsStatement || t.isMark "=" then field g ctx key
      else do
        refuseUnless (start.text? == some "async")
        let yields ← takeMark ctx "*"
        markedMethod g ctx .plain yields true
    pure false

/-- A block that runs once for the class. -/
def staticBlock (g : Grammar) (ctx : Context) : Reader Unit := do
  let inner := { ctx.block with staticBlock := true, field := true }
  expectMark inner "\x7b"
  let _ ← items g Token.isClosed inner (ctx.room + 1)
  expectMark inner "\x7d"

def member (g : Grammar) (ctx : Context) (isStatic : Bool) : Reader Bool := do
  if ← takeMark ctx "*" then do
    markedMethod g ctx .plain true false
    pure false
  else keyedMember g ctx isStatic

def classMember (g : Grammar) (ctx : Context) : Reader Bool := do
  if ← takeWord ctx "static" then
    if ← atMark "(" then do
      method g ctx .plain false false
      pure false
    else if ← endsKey then do
      field g ctx (.text "static")
      pure false
    else if ← atMark "\x7b" then do
      staticBlock g ctx
      pure false
    else member g ctx true
  else member g ctx false

/-- A class from its keyword on. There is at most one constructor, and a declaration has a
name. -/
def classForm (g : Grammar) (ctx : Context) (needsName : Bool) : Reader Unit := do
  let ctx := { ctx with strict := true, inClass := true }
  advance ctx
  let t ← token
  if needsName || t.isReference ctx.mode then do
    let _ ← bindingName ctx
  if ← takeWord ctx "extends" then do
    let _ ← g.operand ctx
  expectMark ctx "\x7b"
  let members ← many
    (do
      if ← takeMark ctx "\x7d" then pure none
      else if ← takeMark ctx ";" then pure (some false)
      else some <$> classMember g { ctx with superMember := true })
    (ctx.room + 1)
  refuseUnless (members.count true ≤ 1)

end Enclave.Script.Reader
