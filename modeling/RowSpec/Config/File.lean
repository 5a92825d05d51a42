import RowSpec.Config.Format

/-! Configurations from files. -/
namespace RowSpec

inductive FileFault where
  | notFound
  | isDirectory
  | notUtf8
  deriving DecidableEq, Repr

def FileFault.message : FileFault → String
  | .notFound => "No such file or directory (os error 2)"
  | .isDirectory => "Is a directory (os error 21)"
  | .notUtf8 => "stream did not contain valid UTF-8"

def decodeText (bytes : ByteArray) : Except FileFault String :=
  match String.fromUTF8? bytes with
  | some text => .ok text
  | none => .error .notUtf8

inductive ConfigError where
  | unreadable (path : String) (fault : FileFault)
  | json (problem : Json.Problem)
  deriving DecidableEq, Repr

namespace ConfigError

def message : ConfigError → String
  | .unreadable path fault => "cannot read config file " ++ path ++ ": " ++ fault.message
  | .json problem => "invalid config JSON: " ++ problem.reason

def cause : ConfigError → String
  | .unreadable _ fault => fault.message
  | .json problem => problem.reason

end ConfigError

namespace Config

def decode (codec : Json.Codec) (text : String) : Except ConfigError Config :=
  ((shape codec).readText codec text).mapError .json

def ofText (text : String) : Except ConfigError Config := decode Json.codec text

def ofFile (path : String) (content : Except FileFault ByteArray) : Except ConfigError Config := do
  let text ← (content.bind decodeText).mapError (.unreadable path)
  ofText text

end Config

end RowSpec
