import Enclave.Script.Grammar.Expression

/-!
# Statements

Readers for statements and declarations. A declaration stands only in a list of statements; a
statement that another one governs is none, save for an asynchronous function.
-/
namespace Enclave.Script.Reader

def unevaluated (x : Reader Unit) : Reader Statement := do
  x
  pure .other

/-! ## Blocks and functions -/

def block (g : Grammar) (ctx : Context) : Reader Statements := do
  let inner := ctx.block
  expectMark inner "\x7b"
  let (body, _) ← items g Token.isClosed inner (ctx.room + 1)
  expectMark inner "\x7d"
  pure (.ofList body)

/-- A function from its keyword on; its name belongs to its surroundings. -/
def functionDeclaration (g : Grammar) (ctx : Context) (isAsync : Bool) : Reader Unit := do
  expectWord ctx "function"
  let yields ← takeMark ctx "*"
  let _ ← bindingName ctx.detached
  functionRest g ctx.detached .plain yields isAsync

/-! ## Variables -/

inductive Variables where
  | var
  | lexical
  | constant
  deriving DecidableEq

/-- A declared name, or none for a pattern, with its initial value. -/
structure Declarator where
  name? : Option String
  init? : Option Expr

/-- One keyword of declarations is a name as well, but not one that they declare. -/
def declarator (g : Grammar) (ctx : Context) (kind : Variables) : Reader Declarator := do
  if kind != .var then do
    refuseUnless (!(← atWord "let"))
  let name? ← g.pattern ctx
  let init? ← if ← takeMark ctx "=" then some <$> value g ctx else pure none
  pure ⟨name?, init?⟩

def declarators (g : Grammar) (ctx : Context) (kind : Variables) : Reader (List Declarator) := do
  let first ← declarator g ctx kind
  let more ← many
    (do if ← takeMark ctx "," then some <$> declarator g ctx kind else pure none)
    (ctx.room + 1)
  pure (first :: more)

/-- A pattern has an initial value. -/
def Declarator.isComplete (d : Declarator) : Bool :=
  d.init?.isSome || d.name?.isSome

def toDeclarators : List Declarator → Declarators
  | [] => .nil
  | ⟨some name, init?⟩ :: rest => .name name init? (toDeclarators rest)
  | ⟨none, _⟩ :: rest => .pattern (toDeclarators rest)

/-- Consumes the keyword of a declaration. The keyword that is also a name declares only in front
of what it can declare. -/
def takeVariables (ctx : Context) : Reader (Option Variables) := do
  if ← takeWord ctx "var" then pure (some .var)
  else if ← takeWord ctx "const" then pure (some .constant)
  else if ← atWord "let" then do
    let next ← peek ctx
    let declares := match next.kind with
      | .name _ word => !reservedWords.contains word
      | _ => next.isMark "[" || next.isMark "\x7b"
    if declares then do
      advance ctx
      pure (some .lexical)
    else pure none
  else pure none

/-- Declarators outside of the head of a loop; constants have initial values. -/
def declaration (g : Grammar) (ctx : Context) (kind : Variables) : Reader Statement := do
  let ds ← declarators g ctx.withIn kind
  refuseUnless (ds.all fun d => d.isComplete && (kind != .constant || d.init?.isSome))
  endStatement ctx
  pure (.declare (toDeclarators ds))

/-! ## Choices and loops -/

def ifStatement (g : Grammar) (ctx : Context) : Reader Statement := do
  advance ctx
  let test ← guardedExpression g ctx
  let yes ← g.statement ctx
  if ← takeWord ctx "else" then do
    let no ← g.statement ctx
    pure (.choice test yes no)
  else pure (.branch test yes)

def whileStatement (g : Grammar) (ctx : Context) : Reader Statement := do
  advance ctx
  let test ← guardedExpression g ctx
  let body ← g.statement ctx.loop
  pure (.loop test body)

def doStatement (g : Grammar) (ctx : Context) : Reader Unit := do
  advance ctx
  let _ ← g.statement ctx.loop
  expectWord ctx "while"
  let _ ← guardedExpression g ctx
  let _ ← takeMark ctx ";"

/-- How a loop goes round. -/
inductive LoopForm where
  | counting
  | keys
  | members
  deriving DecidableEq

/-- The head of a counting loop after its first semicolon. The second one may be left out behind a
test. -/
def countingRest (g : Grammar) (ctx : Context) : Reader LoopForm := do
  if ← takeMark ctx ";" then pure ()
  else do
    let _ ← expression g ctx.withIn
    let _ ← takeMark ctx ";"
  if ← atMark ")" then pure ()
  else do
    let _ ← expression g ctx.withIn
  pure .counting

/-- The head of a loop over members or keys, from the word behind its target on. -/
def memberRest (g : Grammar) (ctx : Context) : Reader LoopForm := do
  if ← takeWord ctx "of" then do
    let _ ← value g ctx.withIn
    pure .members
  else do
    expectWord ctx "in"
    let _ ← expression g ctx.withIn
    pure .keys

def atMemberWord : Reader Bool := do
  let t ← token
  pure (t.isWord "of" || t.isWord "in")

/-- Can these declarators be the target of a loop over members or keys? There is one, and only
outside of strict code and in front of keys it has an initial value. -/
def areMemberTarget (ctx : Context) (word : Token) : List Declarator → Bool
  | [d] => d.init?.isNone || (!ctx.strict && word.isWord "in")
  | _ => false

def declaringHead (g : Grammar) (ctx : Context) (kind : Variables) : Reader LoopForm := do
  let ds ← declarators g (if kind == .var then ctx else ctx.withIn) kind
  if ← atMemberWord then do
    refuseUnless (areMemberTarget ctx (← token) ds)
    memberRest g ctx
  else do
    refuseUnless (ds.all Declarator.isComplete)
    expectMark ctx ";"
    countingRest g ctx

/-- A loop's head that begins with an expression. -/
def assigningHead (g : Grammar) (ctx : Context) : Reader LoopForm := do
  let first ← g.assign ctx.withoutIn
  let more ← moreValues g ctx.withoutIn
  if ← atMemberWord then do
    refuseUnless (more.isEmpty && (first.target || first.pattern))
    memberRest g ctx
  else do
    expectMark ctx ";"
    countingRest g ctx

def loopHead (g : Grammar) (ctx : Context) : Reader LoopForm := do
  match ← takeVariables ctx with
  | some kind => declaringHead g ctx kind
  | none => if ← takeMark ctx ";" then countingRest g ctx else assigningHead g ctx

/-- Only a loop over members can wait for each of them. -/
def forStatement (g : Grammar) (ctx : Context) : Reader Unit := do
  advance ctx
  let waits ← takeWord ctx "await"
  expectMark ctx "("
  let form ← loopHead g { ctx with head := if waits then .awaiting else .plain }
  refuseUnless (!waits || form == .members)
  expectMark ctx ")"
  let _ ← g.statement ctx.loop

/-! ## Jumps -/

/-- A jump, with the label it names, if it names one on its line. -/
def jump (ctx : Context) : Reader (Option String) := do
  advance ctx
  if (← token).endsStatement then do
    endStatement ctx
    pure none
  else do
    let label ← reference ctx
    endStatement ctx
    pure (some label)

/-- Is the label that a jump names in force? -/
def hasLabel (ctx : Context) : Option String → Bool
  | some label => ctx.labels.contains label
  | none => true

def breakStatement (ctx : Context) : Reader Unit := do
  let label? ← jump ctx
  refuseUnless (ctx.mayBreak && hasLabel ctx label?)

def continueStatement (ctx : Context) : Reader Unit := do
  let label? ← jump ctx
  refuseUnless (ctx.mayContinue && hasLabel ctx label?)

def returnStatement (g : Grammar) (ctx : Context) : Reader Unit := do
  refuseUnless ctx.inFunction
  advance ctx
  if (← token).endsStatement then pure ()
  else do
    let _ ← expression g ctx.withIn
  endStatement ctx

def throwStatement (g : Grammar) (ctx : Context) : Reader Unit := do
  advance ctx
  let t ← token
  refuseUnless (!t.afterLine)
  let _ ← expression g ctx.withIn
  endStatement ctx

/-! ## Other statements -/

/-- The governed statement may return as in a function. -/
def withStatement (g : Grammar) (ctx : Context) : Reader Unit := do
  refuseUnless (!ctx.strict)
  advance ctx
  let _ ← guardedExpression g ctx
  let _ ← g.statement { ctx with inFunction := true }

/-- A case of a switch with its statements. Says whether it is the default. -/
def switchCase (g : Grammar) (ctx : Context) : Reader Bool := do
  let isDefault ← takeWord ctx "default"
  if isDefault then pure ()
  else do
    expectWord ctx "case"
    let _ ← expression g ctx.withIn
  expectMark ctx ":"
  let isEnd (t : Token) := t.isClosed || t.isWord "case" || t.isWord "default"
  let _ ← items g isEnd ctx.block (ctx.room + 1)
  pure isDefault

def switchStatement (g : Grammar) (ctx : Context) : Reader Unit := do
  advance ctx
  let _ ← guardedExpression g ctx
  expectMark ctx "\x7b"
  let cases ← many
    (do if ← takeMark ctx "\x7d" then pure none else some <$> switchCase g ctx.breakable)
    (ctx.room + 1)
  refuseUnless (cases.count true ≤ 1)

def tryStatement (g : Grammar) (ctx : Context) : Reader Unit := do
  advance ctx
  let _ ← block g ctx
  let caught ← takeWord ctx "catch"
  if caught then do
    if ← takeMark ctx "(" then do
      let _ ← g.pattern ctx
      expectMark ctx ")"
    let _ ← block g ctx
  let last ← takeWord ctx "finally"
  if last then do
    let _ ← block g ctx
  refuseUnless (caught || last)

/-- A statement behind its label and the colon; outside of strict code it may be a plain
function. -/
def labelled (g : Grammar) (ctx : Context) (name : String) : Reader Unit := do
  refuseUnless (!ctx.labels.contains name)
  let inner := ctx.label name
  if ← atWord "function" then do
    refuseUnless (!ctx.strict && !(← peek inner).isMark "*")
    functionDeclaration g inner false
  else do
    let _ ← g.statement inner

/-- An expression as a statement. A name with a colon behind it is a label. -/
def expressionStatement (g : Grammar) (ctx : Context) : Reader Statement := do
  let e ← expression g ctx.withIn
  let isLabel ← atMark ":"
  match e, isLabel with
  | .name name, true => unevaluated do
    advance ctx
    labelled g ctx name
  | _, _ => do
    endStatement ctx
    pure (.expression e)

/-- An import at the front of a statement is a call; nothing has to end the statement. -/
def importStatement (g : Grammar) (ctx : Context) : Reader Statement := do
  let next ← peek ctx
  refuseUnless (next.isMark "(" || next.isMark ".")
  let e ← expression g ctx
  let _ ← takeMark ctx ";"
  pure (.expression e)

/-- The statement that a keyword opens. -/
def keywordStatement? (g : Grammar) (ctx : Context) (word : String) : Option (Reader Statement) :=
  match word with
  | "var" => some do
    advance ctx
    declaration g ctx .var
  | "if" => some (ifStatement g ctx)
  | "while" => some (whileStatement g ctx)
  | "do" => some (unevaluated (doStatement g ctx))
  | "for" => some (unevaluated (forStatement g ctx))
  | "break" => some (unevaluated (breakStatement ctx))
  | "continue" => some (unevaluated (continueStatement ctx))
  | "return" => some (unevaluated (returnStatement g ctx))
  | "throw" => some (unevaluated (throwStatement g ctx))
  | "with" => some (unevaluated (withStatement g ctx))
  | "switch" => some (unevaluated (switchStatement g ctx))
  | "try" => some (unevaluated (tryStatement g ctx))
  | "debugger" => some (unevaluated do
    advance ctx
    endStatement ctx)
  | "import" => some (importStatement g ctx)
  | "function" | "class" => some failure
  | _ => none

/-- A statement that begins with a word. -/
def wordStatement (g : Grammar) (ctx : Context) (word : String) : Reader Statement := do
  match keywordStatement? g ctx word with
  | some s => s
  | none =>
    if word == "async" then do
      let next ← peek ctx
      if next.isWord "function" && !next.afterLine then
        unevaluated do
          advance ctx
          functionDeclaration g ctx true
      else expressionStatement g ctx
    else expressionStatement g ctx

def statement (g : Grammar) (ctx : Context) : Reader Statement := do
  let t ← token
  match t.kind with
  | .name _ word => wordStatement g ctx word
  | .mark "\x7b" => .block <$> block g ctx
  | .mark ";" => do
    advance ctx
    pure .empty
  | _ => expressionStatement g ctx

/-- A statement or a declaration. -/
def item (g : Grammar) (ctx : Context) : Reader Statement := do
  if ← atWord "function" then unevaluated (functionDeclaration g ctx false)
  else if ← atWord "class" then unevaluated (classForm g ctx true)
  else
    match ← takeVariables ctx with
    | some kind => declaration g ctx kind
    | none => statement g ctx

end Enclave.Script.Reader
