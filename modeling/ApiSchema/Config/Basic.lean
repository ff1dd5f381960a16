import ApiSchema.Json.Record

/-!
# Configuration

A configuration holds the options of the compiler and the names of the source files. Its text is a
JSON document in which everything may be left out.
-/

namespace ApiSchema

/-- The options of the compiler. -/
structure Options where
  /-- Whether a failing decorator is reported as a diagnostic instead of ending the run. -/
  designTime : Bool
  /-- The largest number of diagnostics that a run answers. -/
  maxDiagnostics : Option UInt64
  deriving DecidableEq

namespace Options

/-- The options when nothing is said about them. -/
def default : Options := ⟨false, none⟩

/-- The fields of the options in a document. -/
def fields : List (Json.Field Options) :=
  [⟨"designTimeBuild", fun options => do return { options with designTime := ← Json.scanBoolean }⟩,
   ⟨"maxDiagnostics", fun options => do
      return { options with maxDiagnostics := ← Json.scanOptional Json.scanUnsigned }⟩]

/-- Reads options. -/
def scan : Json.Scan Options := Json.scanRecord fields default

/-- The options in a document. -/
def parse (text : String) : Except Json.Fault Options := Json.parse scan text

/-- The text of a truth value. -/
def renderFlag : Bool → List Char
  | true => ['t', 'r', 'u', 'e']
  | false => ['f', 'a', 'l', 's', 'e']

/-- The text of a number that may be missing. -/
def renderLimit : Option UInt64 → List Char
  | none => ['n', 'u', 'l', 'l']
  | some limit => Nat.toDigits 10 limit.toNat

/-- The characters of a document with the given options. -/
def write (options : Options) : List Char :=
  '\x7b' :: Json.quote "designTimeBuild" ++ ':' :: renderFlag options.designTime ++
    ',' :: Json.quote "maxDiagnostics" ++ ':' :: renderLimit options.maxDiagnostics ++ ['\x7d']

/-- The document with the given options. -/
def render (options : Options) : String := String.ofList options.write

end Options

/-- A configuration. -/
structure Config where
  options : Options
  /-- The names of the source files, in order. -/
  files : List String
  deriving DecidableEq

namespace Config

/-- The configuration when nothing is said. -/
def default : Config := ⟨.default, []⟩

/-- The fields of a configuration in a document. -/
def fields : List (Json.Field Config) :=
  [⟨"compilerOptions", fun config => do return { config with options := ← Options.scan }⟩,
   ⟨"files", fun config => do return { config with files := ← Json.scanList Json.scanString }⟩]

/-- Reads a configuration. -/
def scan : Json.Scan Config := Json.scanRecord fields default

/-- The configuration in a document. -/
def parse (text : String) : Except Json.Fault Config := Json.parse scan text

/-- The characters of a list of file names. -/
def writeFiles (files : List String) : List Char :=
  '[' :: [','].intercalate (files.map Json.quote) ++ [']']

/-- The characters of a document with the given configuration. -/
def write (config : Config) : List Char :=
  '\x7b' :: Json.quote "compilerOptions" ++ ':' :: config.options.write ++
    ',' :: Json.quote "files" ++ ':' :: writeFiles config.files ++ ['\x7d']

/-- The document with the given configuration. -/
def render (config : Config) : String := String.ofList config.write

end Config

end ApiSchema
