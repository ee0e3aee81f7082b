import TableDdl.Statement.Grammar

/-!
# Scripts in files

A script may be the content of a file, which has to be there and to be text.
-/

namespace TableDdl

/-- The reason for which a file cannot be read as text. -/
inductive FileFault where
  /-- There is no such file. -/
  | missing
  /-- The bytes of the file are no text in UTF-8. -/
  | notText
deriving DecidableEq, Repr

namespace FileFault

/-- The wording of a fault of a file. -/
def message : FileFault → String
  | missing => "No such file or directory (os error 2)"
  | notText => "stream did not contain valid UTF-8"

end FileFault

/-- The text that the bytes of a file hold; a file that is not there has no bytes. -/
def fileText (content : Option ByteArray) : Except FileFault String :=
  match content with
  | none => .error .missing
  | some bytes =>
      match String.fromUTF8? bytes with
      | some text => .ok text
      | none => .error .notText

/-- The refusal of a script in a file. -/
inductive ScriptError where
  /-- The text is refused. -/
  | parse (error : ParseError)
  /-- The file cannot be read. -/
  | file (fault : FileFault)
deriving DecidableEq, Repr

namespace ScriptError

/-- The refusal in words. -/
def message : ScriptError → String
  | parse error => error.message
  | file fault => "IO error: " ++ fault.message

end ScriptError

namespace Statement

/-- The statements of a text, as those of a script. -/
def parseText (settings : Settings) (text : String) : Except ScriptError (List Statement) :=
  (parseScript settings text).mapError .parse

/-- The statements of the script that a file holds. -/
def parseFile (settings : Settings) (content : Option ByteArray) :
    Except ScriptError (List Statement) :=
  match fileText content with
  | .error fault => .error (.file fault)
  | .ok text => parseText settings text

end Statement

end TableDdl
