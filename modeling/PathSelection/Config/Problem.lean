import PathSelection.Check.Basic
import PathSelection.Disk.View

namespace PathSelection

inductive Section where
  | commands
  | servers
deriving DecidableEq, Repr

def Section.key : Section → Text
  | .commands => "commands"
  | .servers => "servers"

namespace Config

inductive Problem where
  | unreadable (error : View.TextError)
  | notToml
  | unknownGlobalKey (key : Text)
  | noSection
  | sectionNotTable (part : Section)
  | checkNotTable (part : Section) (check : Text)
  | unknownKey (key check : Text)
  | missing (check key : Text)
  | portMissing (check : Text)
  | portMisplaced (check : Text)
  | unknownPurpose (check value : Text)
  | wrongKind (owner key expected actual : Text)
deriving DecidableEq, Repr

def Problem.message : Problem → Text
  | .unreadable error => error.message
  | .notToml => "invalid TOML"
  | .unknownGlobalKey key => "Unknown top-level key " ++ key.quoted
  | .noSection => "You must define at least one [commands.NAME] or [servers.NAME] table"
  | .sectionNotTable part =>
    "The " ++ part.key ++ " key must be a table of named checks ([" ++ part.key ++ ".NAME])"
  | .checkNotTable part check => "The " ++ part.key ++ "." ++ check ++ " entry must be a table"
  | .unknownKey key check => "Unknown key " ++ key.quoted ++ " in " ++ check
  | .missing check key => "The " ++ check ++ "." ++ key ++ " key is required"
  | .portMissing check => "The " ++ check ++ ".port key is required for servers"
  | .portMisplaced check => "The " ++ check ++ ".port key is only valid for servers"
  | .unknownPurpose check value =>
    "The " ++ check ++ ".type key is invalid: " ++ Purpose.unknownText value
  | .wrongKind owner key expected actual =>
    "The " ++ owner ++ "." ++ key ++ " key must be " ++ expected ++ ", not a " ++ actual

end Config
end PathSelection
