import SealedStore.Benchmark.Run
import SealedStore.Rsa.Generate
/-!
# The benchmark on a terminal

Performs the benchmark with the real environment, files, clock and random
bytes. The number of objects may be given as an argument.
-/

namespace SealedStore.Terminal

def perform {I : Interface} {α : Type} (answer : (c : I.Call) → IO (I.Reply c)) : Program I α → IO α
  | .done a => return a
  | .draw _ size next => do
    let b ← IO.getRandomBytes (.ofNat size)
    perform answer (next b.toList)
  | .log event next => do
    if event.level = .warning then IO.eprintln event.message
    perform answer next
  | .call c next => do
    let reply ← answer c
    perform answer (next reply)

abbrev noCalls : Interface := ⟨Empty, fun _ => Empty⟩

def newKey : IO MasterKey := do
  match ← perform (I := noCalls) (fun c => c.elim) (Rsa.generate? 100) with
  | some key => return .rsa key
  | none => throw (IO.userError "No RSA key was found")

def answer (store : IO.Ref Storage) : (c : Benchmark.Call) → IO c.Reply
  | .storage c => store.modifyGet fun s => Storage.serve c s
  | .print line => IO.println line
  | .ask prompt => do
    IO.print prompt
    (← IO.getStdout).flush
    let line ← (← IO.getStdin).getLine
    return if line.isEmpty then none else some line
  | .time => return (Float.ofNat (← IO.monoNanosNow)) / 1e9
  | .newKey => newKey

def readFile (path : Path) : IO (Except FileFault String) := do
  try
    return .ok (← IO.FS.readFile path.toRaw.shown)
  catch
    | .inappropriateType _ _ _ => return .error (.directory path.toRaw)
    | _ => return .error (.absent path.toRaw)

def settingNames : List String :=
  [keyFilesSetting, "ENVELOPE_MASTER_KEY_PASSWORD", "ENVELOPE_AES_KEY_SIZE", "ENVELOPE_TEMP_SUFFIX"]

def environment : IO (Except Error Environment) := do
  let set ← settingNames.filterMapM fun name => do
    return (← IO.getEnv name).map fun value => (name, .ofText value)
  let file ← readFile (Path.ofRaw (.ofText ".env"))
  return Environment.withFile ⟨set⟩ file.toOption

/-- The key files that an environment names, read beforehand. -/
def keyReader (env : Environment) : IO FileReader := do
  let files ← env.keyFiles.mapM fun name => do
    let path := Path.ofRaw name
    return (path, ← readFile path)
  return fun path => (files.lookup path).getD (.error (.absent path.toRaw))

def fail (e : Error) : IO UInt32 := do
  IO.eprintln e.message
  return 1

end SealedStore.Terminal

open SealedStore in
def main (arguments : List String) : IO UInt32 := do
  match ← Terminal.environment with
  | .error e => Terminal.fail e
  | .ok env =>
    let read ← Terminal.keyReader env
    let store ← IO.mkRef ({} : Storage)
    let run := Benchmark.runArguments env read Benchmark.payloadSize arguments
    match ← Terminal.perform (Terminal.answer store) run.run with
    | .ok _ => return 0
    | .error (.failed e) => Terminal.fail e
    | .error (.mismatch _) => return 1
