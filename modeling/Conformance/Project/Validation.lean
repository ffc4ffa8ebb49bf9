import Conformance.Project.Run
import Conformance.Value.Display
import Conformance.Wildcard.Search

/-!
# Checks that change a run

The checks of a file are told once more, as changes of the run: a check looks at the run as it stands, adds a violation
where it finds one, and logs what it leaves out. An error breaks such a run off wherever it is, and what was changed
before stays changed.

Changes can fail where lists of violations cannot: a limit on lines that has too many digits is not written into a
message, and by then the file has been counted.
-/

namespace Conformance

/-- What breaks a run off. -/
inductive Stop where
  /-- A target cannot be looked up. -/
  | access (e : AccessError)
  /-- An integer has too many digits to be written. -/
  | unwritable (n : Int)
deriving DecidableEq, Repr

/-- A run that is under way, and what it has logged so far. -/
structure Progress where
  run : Run
  log : List LogRecord := []
deriving DecidableEq, Repr

/-- A file that was read for a rule. -/
structure LoadedFile where
  path : Path
  rule : Rule
  text : List Char

/-- The file as the subject of a check that looks at a run. -/
def LoadedFile.subject (f : LoadedFile) (r : Run) : Subject where
  settings := r.settings
  file := Path.display r.root f.path
  rule := f.rule
  text := f.text

/-- The run with one more file counted. -/
def Run.count (r : Run) : Run := { r with checkedFiles := r.checkedFiles + 1 }

/-- A change of a run that an error may break off. What was changed before it stays changed. -/
abbrev Action (α : Type) := ExceptT Stop (StateM Progress) α

namespace Action

/-- The result of a change and what it makes of a run. -/
def on {α : Type} (a : Action α) (p : Progress) : Except Stop α × Progress := StateT.run (ExceptT.run a) p

/-! ## Single changes -/

/-- The settings of the run. -/
def settings : Action Settings := do
  let p ← get
  return p.run.settings

/-- One log record more. -/
def say (record : LogRecord) : Action Unit := modify fun p => { p with log := p.log ++ [record] }

/-- One violation more, of the file at a path. -/
def add (path : Path) (rule : Rule) (category : Category) (message : String) (line : Option Nat := none)
    (severity : Severity := .error) : Action Unit :=
  modify fun p =>
    let v : Violation :=
      { file := Path.display p.run.root path
        moduleName := rule.moduleName
        category
        message
        line := line.map Int.ofNat
        severity }
    { p with run := p.run.add [v] }

/-- One more file is counted. -/
def count : Action Unit := modify fun p => { p with run := p.run.count }

/-- A change that is made under a condition. -/
def provided (condition : Prop) [Decidable condition] (a : Action Unit) : Action Unit :=
  if condition then a else pure ()

/-- The digits of an integer for a message. -/
def written (n : Int) : Action String :=
  if (Value.int n).isShowable then pure (toString n) else throw (.unwritable n)

/-! ## The checks of a file -/

/-- The file has no more lines than the rule allows. The number of its lines can always be written, since no text is
that long; the limit is any integer. -/
def size (f : LoadedFile) : Action Unit :=
  match f.rule.maxLines with
  | none => pure ()
  | some most =>
    let lines := Text.countLines f.text
    provided (most < lines) do
      let limit ← written most
      add f.path f.rule .fileSize ("File has " ++ toString lines ++ " lines (max: " ++ limit ++ ")")

/-- Every import is compared with the denied patterns, and with the allowed ones if there are any. -/
def imports (f : LoadedFile) : Action Unit :=
  forM (Import.all f.text) fun i => do
    let line := Text.lineAt f.text i.offset
    let allowed := f.rule.allowedImports
    forM f.rule.deniedImports fun p =>
      provided (Wildcard.finds p i.path) <|
        add f.path f.rule .forbiddenImport
          ("Forbidden import '" ++ i.path ++ "' matches pattern '" ++ p ++ "'") (some line)
    provided (allowed != [] && !allowed.any (Wildcard.finds · i.path)) <|
      add f.path f.rule .forbiddenImport ("Import '" ++ i.path ++ "' is not in allowed list") (some line)

/-- Every use of a denied operation is added, family by family and pattern by pattern. Operations that are not known
are passed over. -/
def operations (f : LoadedFile) : Action Unit :=
  forM f.rule.deniedOperations fun target =>
    match Operation.ofTarget? target with
    | none => pure ()
    | some o =>
      forM o.patterns fun pattern =>
        forM (pattern.scan f.text) fun m =>
          add f.path f.rule .operation
            ("Forbidden " ++ o.label ++ " operation: " ++ String.ofList m.whole.text)
            (some (Text.lineAt f.text m.whole.start))

/-- Every export is looked at for a private name and for denied patterns. -/
def exports (f : LoadedFile) : Action Unit :=
  forM (Export.all f.text) fun e => do
    let line := Text.lineAt f.text e.offset
    provided (e.name.toList.head? = some '_') <|
      add f.path f.rule .forbiddenExport ("Exporting private member: " ++ e.name) (some line)
    forM f.rule.deniedExports fun p =>
      provided (Wildcard.finds p e.name) <|
        add f.path f.rule .forbiddenExport
          ("Export '" ++ e.name ++ "' matches denied pattern '" ++ p ++ "'") (some line)

/-- Utility modules get a reminder for every export. -/
def unusedExports (f : LoadedFile) : Action Unit := do
  let current ← settings
  provided (Text.occursIn current.utilitiesMarker ("/" ++ f.rule.location)) <|
    forM (Export.utilities f.text) fun e =>
      add f.path f.rule .unusedExport
        ("Exported function '" ++ e.name ++ "' may be unused - verify it's imported elsewhere") none .warning

/-- Containers implement error boundaries and use no effect hooks. -/
def containerStructure (f : LoadedFile) : Action Unit := do
  let mentions (word : String) : Bool := Text.occurs word.toList f.text
  provided (!mentions "componentDidCatch" && !mentions "ErrorBoundary") <|
    add f.path f.rule .pattern "Container components must implement error boundaries"
  provided (mentions "useEffect") <|
    add f.path f.rule .pattern "Container components should not use useEffect"

/-- The hooks of both kinds are counted and compared with the limits of the settings. -/
def hookComplexity (f : LoadedFile) : Action Unit := do
  let states := (Check.stateHook.scan f.text).length
  let current ← settings
  provided (current.maxStateHooks < states) <|
    add f.path f.rule .businessLogic
      ("Too many state hooks (" ++ toString states ++
        "). Consider extracting complex state logic to a custom hook") none .warning
  let effects := (Check.effectHook.scan f.text).length
  let current ← settings
  provided (current.maxEffectHooks < effects) <|
    add f.path f.rule .businessLogic
      ("Multiple useEffect hooks (" ++ toString effects ++
        ") suggest business logic. Consider extracting to custom hooks") none .warning

/-- Every finding of the catalogue is added. -/
def logicFindings (f : LoadedFile) : Action Unit :=
  forM (Logic.findings Logic.Signature.catalogue f.text) fun found =>
    add f.path f.rule .businessLogic found.message (some found.line) found.signature.severity

/-- All checks of a component. What is not searched for business logic is logged. -/
def businessLogic (f : LoadedFile) : Action Unit :=
  if !f.rule.isComponent then pure ()
  else do
    let p ← get
    let s := f.subject p.run
    let kind := s.componentClass
    let word (b : Bool) : String := if b then "True" else "False"
    if s.isExempt then say ⟨.debug, .businessLogic, "Skipping business-logic checks for " ++ s.file⟩
    else do
      provided (f.rule.role = .container) (containerStructure f)
      if kind.scanned then do
        logicFindings f
        hookComplexity f
      else
        say ⟨.debug, .businessLogic,
          s.file ++ " not scanned (presentation=" ++ word kind.presentation ++ ", root_or_container=" ++
            word kind.rootOrContainer ++ ")"⟩

/-- The checks of a file in the order in which they are made. -/
def checks : List (LoadedFile → Action Unit) :=
  [size, imports, operations, exports, unusedExports, businessLogic]

/-! ## Files and rules -/

/-- The check of one target. A file is counted as soon as it is read. -/
def checkFile (d : Disk) (target : Path) (rule : Rule) : Action Unit :=
  match d.file? target with
  | .error e => throw (.access ⟨target, e⟩)
  | .ok none => add target rule .missing "File specified in .rux does not exist"
  | .ok (some bytes) => do
    count
    let f : LoadedFile := ⟨target, rule, Text.unifyLineEnds (Text.Utf8.decode bytes.data.toList)⟩
    forM checks fun check => check f

/-- The check of the target of one rule, if it has one. -/
def checkRule (d : Disk) (rule : Rule) : Action Unit :=
  if rule.isInert then pure ()
  else do
    say (Run.announcement rule)
    let p ← get
    checkFile d (p.run.target rule) rule

/-- The check of the targets of all rules that have one. -/
def checkRules (d : Disk) (rules : List Rule) : Action Unit := forM rules (checkRule d)

end Action

end Conformance
