/-
The command line: reads the configuration from the environment, opens new stores
and reports on them.
-/
import MergedMining.Stores

open MergedMining

/-- The values that the environment has for the names of the configuration. -/
def environment : IO (String → Option String) := do
  let names := [Config.dataDirKey, Config.intervalKey, Config.timeoutKey, Config.maturityKey,
    Config.sideChainsKey, Config.mainUrlKey]
  let values ← names.mapM fun name => do return (name, ← IO.getEnv name)
  return fun name => (values.lookup name).join

/-- An event as a line of the log. -/
def eventLine (e : Stores.Event) : String :=
  let fields := e.fields.map fun (name, value) => s!" {name}={value}"
  (if e.isWarning then "WARN " else "INFO ") ++ e.message ++ String.join fields

/-- Reads the configuration, opens the stores and reports on them. -/
def main : IO UInt32 := do
  match Config.load (← environment) with
  | .error e =>
      IO.eprintln ("Error: " ++ e.message)
      return 1
  | .ok config =>
      match Stores.openAt (.fresh config.dataDir) with
      | .error e =>
          IO.eprintln ("Error: " ++ e.message)
          return 1
      | .ok stores =>
          let (outcome, _, events) := stores.reported config.sideChains
          for e in events do IO.println (eventLine e)
          match outcome with
          | .ok () => return 0
          | .error e =>
              IO.eprintln ("Error: " ++ e.message)
              return 1
