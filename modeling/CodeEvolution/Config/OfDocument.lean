import CodeEvolution.Config.Basic
import CodeEvolution.Yaml.Document
/-!
# Configurations from documents

A configuration document is a mapping from names of settings to values. A setting that it does not
name keeps its default, a name that is not a setting is passed over, and no setting may be named
twice. A text without a document, or with an empty one, gives the defaults.
-/
namespace CodeEvolution.Config

variable (text : List Char) (base : Nat) (document value : Yaml.Node)

def withoutPlus : List Char → List Char
  | '+' :: rest => rest
  | text => text

def isSigned : Bool :=
  text.head? == some '+' || text.head? == some '-'

def digitBelow? (c : Char) : Option Nat :=
  (Yaml.hexValue? c).filter (· < base)

def inBase? (digits : List Char) : Option Nat :=
  if digits.isEmpty then none
  else digits.foldl (fun value? c => do return (← value?) * base + (← digitBelow? base c)) (some 0)

def isZeroPadded : Bool :=
  1 < text.length && text.head? == some '0' && text.all Decimal.isDigit

/-- A natural number in base ten, or in base sixteen, eight or two after `0x`, `0o` or `0b`. -/
def unsigned? : Option Nat :=
  let text := withoutPlus text
  match text with
  | '0' :: 'x' :: digits => inBase? 16 digits
  | '0' :: 'o' :: digits => inBase? 8 digits
  | '0' :: 'b' :: digits => inBase? 2 digits
  | _ => if isZeroPadded text then none else inBase? 10 text

def size? : Option Nat :=
  (unsigned? text).filter (· < Nat.pow 2 64)

def threshold? : Option Binary64 :=
  let body := withoutPlus text
  if body != text && isSigned body then none
  else if [".inf", ".Inf", ".INF"].contains (String.ofList body) then some (.infinite false)
  else if ["-.inf", "-.Inf", "-.INF"].contains (String.ofList text) then some (.infinite true)
  else if [".nan", ".NaN", ".NAN"].contains (String.ofList text) then some .notANumber
  else (Decimal.number? body).filter Binary64.isFinite

def numeral? (tag : String) : Yaml.Node → Option (List Char)
  | .scalar _ _ text .plain => some text.toList
  | .scalar _ given text .literal => if given == some tag then some text.toList else none
  | _ => none

def readSize? : Option Nat :=
  (numeral? "tag:yaml.org,2002:int" (document.resolve value)).bind size?

def readThreshold? : Option Binary64 :=
  (numeral? "tag:yaml.org,2002:float" (document.resolve value)).bind threshold?

def readText? : Option String :=
  match document.resolve value with
  | .scalar _ _ text _ => some text
  | _ => none

def isNull (text : String) (style : Yaml.ScalarStyle) : Bool :=
  style == .plain && ["", "null", "Null", "NULL", "~"].contains text

def readRule? : Option Rule :=
  match document.resolve value with
  | .scalar _ tag text style =>
    match tag.map String.toList with
    | some ('!' :: name) =>
      if isNull text style then Rule.ofName? (String.ofList name) else none
    | _ => Rule.ofName? text
  | _ => none

def readList? {α : Type} (item? : Yaml.Node → Option α) (document value : Yaml.Node) : Option (List α) :=
  match document.resolve value with
  | .sequence _ items => items.mapM item?
  | .scalar _ _ "" .plain => some []
  | _ => none

/-- A configuration with one setting changed; `none` where the value does not fit the setting. A
name that is not a setting changes nothing. -/
def set? (config : Config) (name : String) (value : Yaml.Node) : Option Config :=
  match name with
  | "maxFileSize" => do return { config with maxFileSize := ← readSize? document value }
  | "maxConcurrency" => do return { config with maxConcurrency := ← readSize? document value }
  | "modelCacheSize" => do return { config with modelCacheSize := ← readSize? document value }
  | "maxReplacements" => do return { config with maxReplacements := ← readSize? document value }
  | "classSimilarityThreshold" => do
    return { config with classSimilarityThreshold := ← readThreshold? document value }
  | "operationMappingThreshold" => do
    return { config with operationMappingThreshold := ← readThreshold? document value }
  | "extractOperationThreshold" => do
    return { config with extractOperationThreshold := ← readThreshold? document value }
  | "include" => do
    return { config with patterns := ← readList? (readText? document) document value }
  | "ruleOrder" => do
    return { config with ruleOrder := ← readList? (readRule? document) document value }
  | _ => some config

def settingNames : List String :=
  ["maxFileSize", "maxConcurrency", "modelCacheSize", "include", "classSimilarityThreshold",
    "operationMappingThreshold", "extractOperationThreshold", "maxReplacements", "ruleOrder"]

/-- A configuration with the settings of some entries, none of which is in `seen` or occurs
twice. -/
def setAll? (document : Yaml.Node) :
    List String → Config → List (Yaml.Node × Yaml.Node) → Option Config
  | _, config, [] => some config
  | seen, config, (key, value) :: rest => do
    let name ← readText? document key
    if settingNames.contains name then
      if seen.contains name then none
      else setAll? document (name :: seen) (← set? document config name value) rest
    else setAll? document seen config rest

def ofDocument? : Option Config :=
  match document with
  | .mapping _ entries => setAll? document [] {} entries
  | .scalar _ _ "" .plain => some {}
  | _ => none

def ofText (text : String) : Except Failure Config := do
  let config ←
    match Yaml.document? text with
    | some none => .ok {}
    | some (some document) =>
      match ofDocument? document with
      | some config => .ok config
      | none => .error .malformedDocument
    | none => .error .malformedDocument
  config.validate
  return config

end CodeEvolution.Config
