import TestRun.Suite.Execution
set_option autoImplicit false

namespace TestRun

structure Settings where
  logLevel : Text.CodeText
  reports : Writer.Settings
  runner : Runner
  deriving DecidableEq

namespace Settings

def standard : Settings := 
  ⟨.ofString "INFO", ⟨.ofString "reports", none, [], false, some "  "⟩, ⟨1, by decide⟩⟩

end Settings

end TestRun
