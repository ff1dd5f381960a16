/-!
# Log formats

The format of log messages is chosen by a word, in which the case of letters does not matter.
-/

namespace ApiSchema

/-- The format of log messages. -/
inductive LogFormat where
  | text
  | json
  deriving DecidableEq

namespace LogFormat

/-- The format that a word asks for. No letter outside ASCII has one of the letters of the word
`json` as its lower case. -/
def ofWord (word : String) : LogFormat :=
  if word.toList.map Char.toLower = ['j', 's', 'o', 'n'] then json else text

/-- The format that a setting asks for, which may be missing. -/
def ofSetting (setting : Option String) : LogFormat := (setting.map ofWord).getD text

end LogFormat

end ApiSchema
