import Gamebook.Prose

/-!
Statements, one for each line with content. What a line may hold depends on where it stands: the
lines below a choice are its options, those below a list of scenes name scenes, those below a chart
or an achievement are prose. A command has a form, which says what its arguments are and whether
lines are expected below it. Nothing that a line holds stops the reading of it: what a form has no
use for is marked and skipped to the end of the line.
-/

namespace Gamebook

/-- Where a line stands. -/
inductive Context where
  /-- On the top level of the scene. -/
  | scene
  /-- Below an option or a conditional. -/
  | body
  /-- Below a choice, or below a conditional there. -/
  | choice
  /-- Below a list of scenes. -/
  | sceneList
  /-- Below a chart or an achievement. -/
  | prose
  deriving DecidableEq, Repr, Inhabited

namespace Context

/-- Where the lines below a conditional stand. -/
def below : Context → Context
  | choice => .choice
  | _ => .body

end Context

/-- What a line holds, and where the lines below it stand if it expects any. -/
structure Statement where
  phrase : Phrase
  opens : Option Context := none
  deriving Repr, Inhabited

/-- The forms of commands. -/
inductive CommandForm where
  /-- A name and a value, which only a variable of the whole game needs. -/
  | declaration (declaration : Declaration)
  /-- Something to assign, and a value; by reference, two values. -/
  | assignment (byReference : Bool)
  /-- A name and two bounds. -/
  | random
  | label
  /-- A label, and arguments for a subroutine. -/
  | jump (arguments : Bool)
  /-- A scene and perhaps a label in it, and arguments for a subroutine. -/
  | sceneJump (arguments : Bool)
  /-- The value of an expression as a label. -/
  | computedJump
  | value
  /-- A name, and two bounds for a number. -/
  | input (bounded : Bool)
  /-- Names. -/
  | parameters
  | condition
  | otherwise
  | choice (fake : Bool)
  | sceneList
  /-- Arguments, and prose in the lines below. -/
  | proseBlock
  /-- Arguments or prose, or no known command at all. -/
  | plain
  deriving DecidableEq, Repr, Inhabited

namespace CommandForm

/-- The form of a command. -/
def ofName (name : String) : CommandForm :=
  match name with
  | "temp" => .declaration .temp
  | "create" => .declaration .create
  | "set" => .assignment false
  | "setref" => .assignment true
  | "rand" => .random
  | "label" => .label
  | "goto" => .jump false
  | "gosub" => .jump true
  | "goto_scene" => .sceneJump false
  | "redirect_scene" => .sceneJump false
  | "gosub_scene" => .sceneJump true
  | "gotoref" => .computedJump
  | "print" => .value
  | "looplimit" => .value
  | "input_text" => .input false
  | "input_number" => .input true
  | "params" => .parameters
  | "if" => .condition
  | "elseif" => .condition
  | "elsif" => .condition
  | "else" => .otherwise
  | "choice" => .choice false
  | "fake_choice" => .choice true
  | "scene_list" => .sceneList
  | "stat_chart" => .proseBlock
  | "achievement" => .proseBlock
  | _ => .plain

end CommandForm

namespace Reader

/-- Whether a whole argument is a number, with or without a minus sign. -/
def isNumberArgument (argument : Text) : Bool :=
  let unsigned := match argument with
    | '-' :: rest => rest
    | rest => rest
  !unsigned.isEmpty && Pattern.numberLength unsigned == unsigned.length

/-- Whether a whole argument is a colour: a number sign and three or six hexadecimal digits. -/
def isColorArgument (argument : Text) : Bool :=
  match argument with
  | '#' :: digits => (digits.length == 3 || digits.length == 6) && digits.all Text.isHexDigit
  | _ => false

/-- The kind of an argument without quotes. -/
def argumentKind (argument : Text) : Kind :=
  if isNumberArgument argument then .numericValue
  else if isColorArgument argument then .hexColorValue
  else .stringLiteral

/-- An argument: a quoted string, or the run up to the next blank. -/
def argument (r : Reader) : Phrase × Reader :=
  if r.sees .string || r.sees .badString then r.stringValue else r.leafRun (argumentKind r.run)

/-- Adds the arguments up to the end of the line, at most `budget` of them. -/
def argumentsWithin : Nat → Phrase → Reader → Phrase × Reader
  | 0, phrase, r => (phrase, r)
  | budget + 1, phrase, r =>
    if r.atEnd then (phrase, r)
    else
      let (argument, r) := r.argument
      argumentsWithin budget (phrase.add argument) r

/-- Adds the arguments up to the end of the line. -/
def arguments (phrase : Phrase) (r : Reader) : Phrase × Reader :=
  argumentsWithin r.budget phrase r

/-- Adds expressions up to the end of the line, at most `budget` of them. -/
def expressionsWithin : Nat → Phrase → Reader → Phrase × Reader
  | 0, phrase, r => (phrase, r)
  | budget + 1, phrase, r =>
    if r.atEnd then (phrase, r)
    else
      match expression r with
      | (some value, r) => expressionsWithin budget (phrase.add value) r
      | (none, r) => phrase.finishLine r

/-- Finishes the line after expressions up to its end, where the form takes any. -/
def finishArguments (takes : Bool) (phrase : Phrase) (r : Reader) : Phrase × Reader :=
  let (phrase, r) := if takes then expressionsWithin r.budget phrase r else (phrase, r)
  phrase.finishLine r

/-- Adds a number of expressions, each of which has to be there, and finishes the line. -/
def requireExpressions : Nat → Phrase → Reader → Phrase × Reader
  | 0, phrase, r => phrase.finishLine r
  | count + 1, phrase, r =>
    match expression r with
    | (some value, r) => requireExpressions count (phrase.add value) r
    | (none, r) => phrase.markRest .expressionExpected r

/-- Adds a name and then a number of expressions, and finishes the line. -/
def requireName (expressions : Nat) (phrase : Phrase) (r : Reader) : Phrase × Reader :=
  match variableName r with
  | (some name, r) => requireExpressions expressions (phrase.add name) r
  | (none, r) => phrase.markRest .variableNameExpected r

/-- A declared variable and its value. -/
def declaration (declaration : Declaration) (phrase : Phrase) (r : Reader) : Phrase × Reader :=
  match variableName r with
  | (none, r) => phrase.markRest .variableNameExpected r
  | (some name, r) =>
    let phrase := phrase.add name
    match expression r with
    | (some value, r) => (phrase.add value).finishLine r
    | (none, r) =>
      if declaration = .temp && r.atEnd then phrase.finishLine r
      else phrase.markRest .expressionExpected r

/-- The value of an assignment: an operator with its right operand, or an expression. -/
def assignedValue (byReference : Bool) (target : Phrase) : Reading := fun r =>
  match r.operator?.filter fun op => op.opensAssignment && !byReference with
  | some op =>
    let (value, r) := assignedOperation target op r
    (some value, r)
  | none => expression r

/-- What is assigned, and its value. -/
def assignment (byReference : Bool) (phrase : Phrase) (r : Reader) : Phrase × Reader :=
  match if byReference then expression r else assignable r with
  | (none, r) =>
    phrase.markRest (if byReference then .expressionExpected else .variableNameExpected) r
  | (some target, r) =>
    let phrase := phrase.add target
    if r.atEnd then ((phrase.complain .expressionExpected r).finish r, r)
    else
      match assignedValue byReference target r with
      | (some value, r) => (phrase.add value).finishLine r
      | (none, r) => phrase.markRest .expressionExpected r

/-- The name of a label that is declared. -/
def labelDeclaration (phrase : Phrase) (r : Reader) : Phrase × Reader :=
  if r.atEnd then phrase.markRest .labelNameExpected r
  else
    let (label, r) := r.leafRun .label
    (phrase.add label).finishLine r

/-- The label that is jumped to. -/
def jump (takesArguments : Bool) (phrase : Phrase) (r : Reader) : Phrase × Reader :=
  if r.atEnd then phrase.markRest .labelNameExpected r
  else
    let (label, behind) := r.leafRun .label
    let reference := (Phrase.begin .labelRef r).add label
    finishArguments takesArguments (phrase.add reference) behind

/-- The scene that is jumped to, with the label in it where one follows. -/
def sceneJump (takesArguments : Bool) (phrase : Phrase) (r : Reader) : Phrase × Reader :=
  if r.atEnd then phrase.markRest .sceneNameExpected r
  else
    let (scene, r) := r.leafRun .sceneRef
    if r.atEnd then finishArguments takesArguments (phrase.add scene) r
    else
      let (label, r) := r.leafRun .label
      let reference := (Phrase.around .labelRef scene.start [scene]).add label
      finishArguments takesArguments (phrase.add reference) r

/-- Adds names up to the end of the line, at most `budget` of them. -/
def namesWithin : Nat → Phrase → Reader → Phrase × Reader
  | 0, phrase, r => (phrase.finish r, r)
  | budget + 1, phrase, r =>
    if r.atEnd then (phrase.finish r, r)
    else
      match variableName r with
      | (some name, r) => namesWithin budget (phrase.add name) r
      | (none, r) => phrase.markRest .variableNameExpected r

/-- A command of no particular form: prose or arguments behind a known name. An unknown name is
marked, and what follows it is skipped. -/
def plainCommand (start : Nat) (name : String) (r : Reader) : Phrase × Reader :=
  let known (kind : Kind) : Phrase × Reader :=
    let named := r.next
    let phrase := (Phrase.empty kind start).finish named
    if Command.takesProse name then prose phrase (named.switch .text)
    else
      let (phrase, r) := arguments phrase named
      (phrase.finish r, r)
  match Command.classify name with
  | .ordinary => known (.standardCommand name)
  | .flow => known (.flowCommand name)
  | .unknown => (Phrase.empty (.command name) start).markRest .unknownCommand r

/-- A command whose asterisk stands at `start`; the reader is before its name. -/
def commandNamed (start : Nat) (context : Context) (r : Reader) : Statement × Reader :=
  let name := r.word
  let named := r.next
  let phrase (kind : Kind) : Phrase := (Phrase.empty kind start).finish named
  let alone (result : Phrase × Reader) : Statement × Reader := (⟨result.1, none⟩, result.2)
  let opening (context : Context) (result : Phrase × Reader) : Statement × Reader :=
    (⟨result.1, some context⟩, result.2)
  match CommandForm.ofName name with
  | .declaration kind => alone (declaration kind (phrase (.variableDeclaration kind)) named)
  | .assignment byReference =>
    alone (assignment byReference (phrase (.setCommand byReference)) named)
  | .random => alone (requireName 2 (phrase .randCommand) named)
  | .label => alone (labelDeclaration (phrase .labelDeclaration) named)
  | .jump takes => alone (jump takes (phrase (.flowCommand name)) named)
  | .sceneJump takes => alone (sceneJump takes (phrase (.flowCommand name)) named)
  | .computedJump => alone (requireExpressions 1 (phrase (.flowCommand name)) named)
  | .value => alone (requireExpressions 1 (phrase (.standardCommand name)) named)
  | .input bounded =>
    alone (requireName (if bounded then 2 else 0) (phrase (.standardCommand name)) named)
  | .parameters => alone (namesWithin named.budget (phrase (.standardCommand name)) named)
  | .condition =>
    opening context.below (requireExpressions 1 (phrase (.standardCommand name)) named)
  | .otherwise => opening context.below ((phrase (.standardCommand name)).finishLine named)
  | .choice fake => opening .choice (arguments (phrase (.choiceCommand fake)) named)
  | .sceneList => opening .sceneList ((phrase (.standardCommand name)).finishLine named)
  | .proseBlock => opening .prose (arguments (phrase (.standardCommand name)) named)
  | .plain => alone (plainCommand start name r)

/-- The text of an option behind its number sign. -/
def optionText (option : Phrase) (r : Reader) : Phrase × Reader :=
  prose option ((r.accept .hash).2.switch .text)

/-- An option that begins with its number sign. -/
def plainOption (r : Reader) : Statement × Reader :=
  let (option, behind) := optionText (.begin (.choiceOption none false) r) r
  (⟨option, some .body⟩, behind)

/-- The commands before an option on its line. -/
structure Modifiers where
  phrases : List Phrase := []
  reuse : Option Reuse := none
  conditional : Bool := false
  deriving Repr, Inhabited

/-- What a modifier says about the reuse of its option. -/
def reuseOf? : String → Option Reuse
  | "hide_reuse" => some .hide
  | "disable_reuse" => some .disable
  | "allow_reuse" => some .allow
  | _ => none

/-- The modifiers before the reader, at most `budget` of them. There are none when a command that
is no modifier stands among them, or a condition is missing. -/
def modifiersWithin : Nat → Modifiers → Reader → Option (Modifiers × Reader)
  | 0, found, r => some (found, r)
  | budget + 1, found, r =>
    if r.sees .asterisk then
      let name := r.next
      if name.sees .ident && Command.isOptionModifier name.word then
        let named := name.next
        let phrase := (Phrase.empty (.standardCommand name.word) r.offset).finish named
        match reuseOf? name.word with
        | some reuse =>
          modifiersWithin budget
            { found with phrases := found.phrases ++ [phrase], reuse := some reuse } named
        | none =>
          match expression named with
          | (none, _) => none
          | (some condition, behind) =>
            modifiersWithin budget
              { found with phrases := found.phrases ++ [phrase.add condition], conditional := true }
              behind
      else none
    else some (found, r)

/-- An option behind modifiers; nothing when no number sign follows them. -/
def modifiedOption (context : Context) (r : Reader) : Option Statement × Reader :=
  match modifiersWithin r.budget {} r with
  | none => (none, r)
  | some (found, before) =>
    if before.sees .hash then
      let kind := Kind.choiceOption found.reuse found.conditional
      let (option, behind) := optionText (.around kind r.offset found.phrases) before
      let option :=
        if context = .choice then option else option.flag .optionOutsideChoice before.offset 1
      (some ⟨option, some .body⟩, behind)
    else (none, r)

/-- A line that begins with a command. -/
def command (context : Context) (r : Reader) : Statement × Reader :=
  match modifiedOption context r with
  | (some option, r) => (option, r)
  | (none, r) => commandNamed r.offset context r.next

/-- A line of prose. A line that looks like a command is cut like one, also where it counts as
prose. -/
def textLine (r : Reader) : Statement × Reader :=
  let (phrase, behind) := prose (.begin .textLine r) r
  (⟨phrase, none⟩, behind)

/-- An entry in a list of scenes. A dollar sign before the name stands for a scene that is sold. -/
def sceneListEntry (r : Reader) : Statement × Reader :=
  let named := (r.accept .dollar).2
  let (phrase, behind) :=
    if named.atEnd then (Phrase.empty .sceneRef r.offset).markRest .sceneNameExpected named
    else
      let (scene, behind) := named.leafRun .sceneRef
      scene.finishLine behind
  (⟨phrase, none⟩, behind)

/-- The whole content of a line as a comment. -/
def commentLine (r : Reader) : Statement × Reader :=
  let behind := r.advance r.rest []
  (⟨(Phrase.begin .comment r).finish behind, none⟩, behind)

/-- The kinds of phrases that may stand on the lines below a choice. -/
def belongsInChoice : Kind → Bool
  | .choiceOption _ _ | .comment => true
  | .standardCommand name => Command.isConditional name
  | _ => false

/-- Marks what stands on a line below a choice and is no option. -/
def checkChoice (context : Context) (statement : Statement) (r : Reader) : Statement :=
  let phrase := statement.phrase
  if context = .choice && !belongsInChoice phrase.kind then
    { statement with
      phrase := phrase.flag .choiceOptionExpected phrase.start (r.lastEnd - phrase.start) }
  else statement

/-- What a line of some type holds where it stands, apart from comments. -/
def contentLine (context : Context) (type : LineType) (r : Reader) : Statement × Reader :=
  match context, type with
  | .sceneList, _ => sceneListEntry r
  | .prose, _ => textLine r
  | .choice, .option => plainOption r
  | _, .option =>
    let (option, behind) := plainOption r
    let phrase := option.phrase
    ({ option with phrase := phrase.flag .optionOutsideChoice phrase.start 1 }, behind)
  | _, .command => command context r
  | _, _ => textLine r

/-- What a line holds where it stands; nothing on a blank line. -/
def statement (context : Context) (type : LineType) (r : Reader) : Option Statement × Reader :=
  if r.atEnd then (none, r)
  else if type = .comment then
    let (comment, behind) := commentLine r
    (some comment, behind)
  else
    let (found, behind) := contentLine context type r
    (some (checkChoice context found behind), behind)

end Reader

end Gamebook
