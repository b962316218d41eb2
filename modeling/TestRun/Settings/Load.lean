import TestRun.Settings.Check
set_option autoImplicit false

namespace TestRun

open Files Yaml

inductive SettingsFault
  | zeroInPath
  | file (e : FileError)
  | notText
  | document (e : YamlError)
  | invalid (issues : List Settings.Issue)

namespace SettingsFault

def typeName : SettingsFault → String
  | zeroInPath => "ValueError"
  | file e => e.reason.typeName
  | notText => "UnicodeDecodeError"
  | document e => e.typeName
  | invalid _ => "ValidationError"

def message? : SettingsFault → Option String
  | zeroInPath => some "embedded null byte"
  | file e => some e.message
  | document e => e.message?
  | notText | invalid _ => none

def text (f : SettingsFault) : String :=
  match f, f.message? with
  | _, some m => m
  | invalid issues, none => String.intercalate "\n" (issues.map Settings.Issue.text)
  | notText, none => "not a text"
  | _, none => "not a well-formed document"

/-- Whether the fault lies in the file, so that its user can mend it. -/
def isRefusal : SettingsFault → Bool
  | file _ | document .malformed | invalid _ => true
  | _ => false

end SettingsFault

namespace Settings

def withLineFeeds : List Char → List Char
  | [] => []
  | '\r' :: '\n' :: rest => '\n' :: withLineFeeds rest
  | '\r' :: rest => '\n' :: withLineFeeds rest
  | c :: rest => c :: withLineFeeds rest

def ofText (s : String) : Except SettingsFault Settings := do
  match Document.ofText (withLineFeeds s.toList) with
  | .error e => throw (.document e)
  | .ok d? =>
    match ofDocument? d? with
    | .error issues => throw (.invalid issues)
    | .ok settings => pure settings

def load (disk : Disk) : Option String → Except SettingsFault Settings
  | none => .ok standard
  | some path =>
    if path.toList.contains '\x00' then .error .zeroInPath
    else match disk.read (.ofString path) with
      | .error e => .error (.file e)
      | .ok bytes =>
        match String.fromUTF8? bytes with
        | none => .error .notText
        | some s => ofText s

end Settings

end TestRun
