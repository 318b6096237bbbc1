import WidgetStyle.Flag.Registry
import WidgetStyle.Style.Exchange

/-!
# The style engine

An engine holds the stylesheets and the flag names of one widget tree, under a configuration that
never changes. The configuration is read from a JSON text in which every field may be left out.
Loading a stylesheet and compiling a formula may fail, and leave the engine as it was if they do.
What was called, and what the engine said to it, is kept call by call.
-/

namespace WidgetStyle

/-! ### Configurations -/

structure Config where
  /-- The nesting of parentheses that is accepted in formulas. -/
  maxExpressionDepth : Nat
  /-- Look rules up in the index instead of going through all of them. -/
  indexRules : Bool
  /-- Keep the diagnostics of skipped declarations. -/
  recordDiagnostics : Bool
deriving DecidableEq, Repr

namespace Config

open Number (Digit)

def initial : Config :=
  ⟨Formula.defaultLimit, true, true⟩

/-- The number of a whole numeral that is not signed and fits a word of 64 bits. -/
def depth? : Json → Option Nat
  | .number numeral =>
    if !numeral.negative ∧ numeral.fraction = [] ∧ numeral.exponent = none ∧
        Digit.value numeral.whole < UInt64.size
    then some (Digit.value numeral.whole)
    else none
  | _ => none

/-- The value of a field, if it is present and of the right kind, or the default if it is
missing. -/
def orElse {α : Type} (missing : α) (read : Json → Option α) : Option Json → Option α
  | none => some missing
  | some json => read json

def ofJson? (json : Json) : Option Config :=
  match json.record? ["max_expression_depth", "index_rules", "record_diagnostics"] with
  | some [depth, index, diagnostics] =>
    match orElse initial.maxExpressionDepth depth? depth, orElse initial.indexRules Json.bool? index,
        orElse initial.recordDiagnostics Json.bool? diagnostics with
    | some depth, some index, some diagnostics => some ⟨depth, index, diagnostics⟩
    | _, _, _ => none
  | _ => none

def ofText? (text : String) : Option Config :=
  (Json.ofText? text).bind ofJson?

def json (config : Config) : Json :=
  .ofFields
    [("max_expression_depth",
        .number ⟨false, Digit.ofNat config.maxExpressionDepth, [], none⟩),
      ("index_rules", .bool config.indexRules),
      ("record_diagnostics", .bool config.recordDiagnostics)]

end Config

/-! ### Engines -/

def version : String := "0.1.0"

/-- Stylesheets and flag names under a configuration. -/
structure Engine where
  config : Config
  sheets : List Sheet
  registry : Registry

inductive EngineError where
  | stylesheet (e : Sheet.FaultAt)
  | formula (e : Formula.FaultAt)
deriving DecidableEq, Repr

def EngineError.message : EngineError → String
  | stylesheet e => "Stylesheet error: " ++ e.message
  | formula e => "State expression error: " ++ e.message

namespace Engine

def ofConfig (config : Config) : Engine :=
  ⟨config, [], .empty⟩

def resolver (engine : Engine) : Resolver :=
  ⟨engine.sheets, engine.config.indexRules⟩

/-- Load a stylesheet behind those already loaded, and give the number of its rules. -/
def load (engine : Engine) (source : String) : Except EngineError (Nat × Engine) :=
  match Sheet.parse source engine.config.recordDiagnostics with
  | .error e => .error (.stylesheet e)
  | .ok sheet => .ok (sheet.size, { engine with sheets := engine.sheets ++ [sheet] })

/-- Read a formula text and give its names handles. -/
def compile (engine : Engine) (text : String) (negate : Bool) :
    Except EngineError (Formula Flag × Engine) :=
  match engine.registry.parse text negate engine.config.maxExpressionDepth with
  | .error e => .error (.formula e)
  | .ok (formula, registry) => .ok (formula, { engine with registry })

def flag (engine : Engine) (name : String) : Flag × Engine :=
  match engine.registry.intern name with
  | (flag, registry) => (flag, { engine with registry })

def resolve {α : Type} [StyleValue α] (engine : Engine) (descriptor : Descriptor α) (path : Path) :
    α :=
  engine.resolver.resolve descriptor path

def style (engine : Engine) (path : Path) : Style :=
  engine.resolver.style path

def diagnostics (engine : Engine) : List Sheet.Diagnostic :=
  engine.sheets.flatMap Sheet.diagnostics

/-! ### Calls -/

/-- What is asked of an engine and may change it. -/
inductive Call where
  | load (source : String)
  | compile (text : String) (negate : Bool)
  | flag (name : String)
deriving DecidableEq, Repr

/-- What an engine says to a call. -/
inductive Answer where
  | loaded (rules : Nat)
  | compiled (formula : Formula Flag)
  | handle (flag : Flag)
  | refused (e : EngineError)

/-- A call with the answer to it. -/
structure Event where
  call : Call
  answer : Answer

/-- The answer to a call, and the engine behind it. -/
def call (engine : Engine) : Call → Answer × Engine
  | .load source =>
    match engine.load source with
    | .error e => (.refused e, engine)
    | .ok (rules, engine) => (.loaded rules, engine)
  | .compile text negate =>
    match engine.compile text negate with
    | .error e => (.refused e, engine)
    | .ok (formula, engine) => (.compiled formula, engine)
  | .flag name =>
    match engine.flag name with
    | (flag, engine) => (.handle flag, engine)

/-- The events of calls in a row, and the engine behind all of them. -/
def run (engine : Engine) : List Call → List Event × Engine
  | [] => ([], engine)
  | first :: calls =>
    match engine.call first with
    | (answer, engine) =>
      match engine.run calls with
      | (events, engine) => (⟨first, answer⟩ :: events, engine)

end Engine

end WidgetStyle
