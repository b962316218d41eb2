import TestRun.Suite.Basic
import TestRun.Text.Blank
set_option autoImplicit false

namespace TestRun.Environment

def check (holds : Bool) (failure : List Datum) : Option Body :=
  some (if holds then [] else [.raise (.make .assertionError failure true)])

def firstWord (s : String) : String :=
  String.ofList ((s.toList.dropWhile Text.isSpacing).takeWhile fun c => !Text.isSpacing c)

def atLeast : List Int → List Int → Bool
  | _, [] => true
  | [], _ :: _ => false
  | a :: as, b :: bs => b < a || (a == b && atLeast as bs)

def versionIsKnown (h : Host) : Option Body :=
  check (atLeast h.version [3, 9])
    [.text ("Python " ++ firstWord (h.runtimeVersion ++ " (main)") ++ " is too old")]

def hostNameIsKnown (h : Host) : Option Body :=
  check (!h.name.isEmpty) [.text "host name is empty"]

def separatorIsSlash (h : Host) : Option Body := check (h.separator == "/") []

def forest (h : Host) : List SuiteNode :=
  let skip? := if h.family == "posix" then none else some ("not a POSIX platform: " ++ h.family)
  [.group true ⟨"environment", some "Environment", none⟩ .none
    [.test ⟨"python", some "Python version is supported", none⟩ (versionIsKnown h),
      .test ⟨"hostname", some "Host name can be captured", none⟩ (hostNameIsKnown h),
      .test ⟨"tempdir", some "Temporary directory is writable", none⟩ (check true []),
      .group false ⟨"posix", some "POSIX", skip?⟩ .none
        [.test ⟨"separator", some "Path separator is '/'", none⟩ (separatorIsSlash h)]]]

end TestRun.Environment
