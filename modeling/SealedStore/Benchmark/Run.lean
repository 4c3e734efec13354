import SealedStore.Benchmark.Report
import SealedStore.Config.Settings
/-!
# The benchmark

Writes, reads and rekeys a number of encrypted objects in a store, and reports
how fast that is. The master key is then replaced by a new one, every object is
rekeyed twice, of which the second time has nothing to do, and read once more
without the old key.

The terminal, the clock and the making of new keys are calls beside those of
the store, so that a run depends on nothing else.
-/

namespace SealedStore.Benchmark

/-! ## Effects -/

/-- What a benchmark asks for. -/
inductive Call where
  | storage (c : StorageCall)
  | print (line : String)
  | ask (prompt : String)
  | time
  | newKey

/-- The replies. An answer is a line without its end, unless the input is over;
the time is in seconds. -/
abbrev Call.Reply : Call → Type
  | .storage c => Except Error c.Result
  | .print _ => Unit
  | .ask _ => Option String
  | .time => Float
  | .newKey => MasterKey

abbrev BenchmarkInterface : Interface where
  Call := Call
  Reply := Call.Reply

/-- How a benchmark ends early: with an error, or because an object was not read
as it had been written. -/
inductive Stop where
  | failed (error : Error)
  | mismatch (key : String)

abbrev Step := ExceptT Stop (Program BenchmarkInterface)

namespace Step
variable {α : Type}

def invoke (c : Call) : Step c.Reply := ExceptT.lift (Program.invoke (I := BenchmarkInterface) c)

def of (r : Except Error α) : Step α := ExceptT.mk (.done (r.mapError .failed))

def print (lines : List String) : Step Unit := lines.forM fun line => invoke (.print line)

def onStorage (p : Program StorageInterface α) : Step α :=
  ExceptT.lift (p.interpret fun c => Program.invoke (I := BenchmarkInterface) (.storage c))

def task (t : StorageTask α) : Step α := do of (← onStorage t.run)

/-- Does something and says how long it took. -/
def timed (work : Step α) : Step (α × Float) := do
  let start ← invoke .time
  let result ← work
  return (result, (← invoke .time) - start)

end Step

/-! ## Settings -/

def bucket : String := "benchmark"

/-- How many objects there are if nothing else is said. -/
def defaultCount : Int := 125

def payloadSize : Nat := 4096

def countOfLine (line : String) : Int :=
  let trimmed := String.ofList (Text.trim line.toList)
  if trimmed.isEmpty then defaultCount else (Integer.read trimmed).toOption.getD defaultCount

def countOfArguments : List String → Except Error (Option Int)
  | [] => .ok none
  | first :: _ => ((Integer.read first).mapError fun fault => .value (.integer fault)).map some

def objectKeys (count : Int) : List String :=
  (List.range count.toNat).map fun i => "object-" ++ Decimal.padLeft 6 '0' (toString i) ++ ".bin"

/-! ## Parts -/

/-- Takes the master keys that the environment names, or makes one. -/
def startUp (env : Environment) (read : FileReader) : Step EncryptionSettings := do
  if ((env.get? keyFilesSetting).getD []).isEmpty then
    let (settings, duration) ← Step.timed do
      Step.of ((EncryptionSettings.make (KeyRing.make (← Step.invoke .newKey) []) 256 ".temp").mapError .config)
    Step.print ["[STARTUP] Generated RSA master key in " ++ milliseconds duration]
    return settings
  else
    let settings := (← Step.of (env.encryptionSettings read)).settings
    let size := settings.encryption.ring.size
    Step.print [s!"[STARTUP] Loaded {size} master key(s) from environment"]
    return settings

def askCount : Step Int := do
  let line ← Step.invoke (.ask s!"Enter number of objects to test (default: {defaultCount}): ")
  return line.elim defaultCount countOfLine

def clientOf (settings : EncryptionSettings) : EncryptingClient :=
  EncryptingClient.make settings {} Filter.default

/-- Writes every object and shows how far that has come. -/
def writeAll (c : EncryptingClient) (payload : Bytes) (keys : List String) : Step Unit :=
  keys.zipIdx.forM fun (key, i) => do
    let content := Content.bytes payload
    let (result, _) ← Step.onStorage (c.put (Put.make ⟨bucket, key⟩ (some content) none none none))
    let _ ← Step.of result
    let total := keys.length
    if (i + 1) % 25 = 0 ∨ i + 1 = total then Step.print [s!"  Progress: {i + 1}/{total}"]

def readAll (c : EncryptingClient) (payload : Bytes) (keys : List String) : Step Unit :=
  keys.forM fun key => do
    if (← Step.task (c.read ⟨bucket, key⟩)) ≠ payload then
      Step.print ["[ERROR] Content mismatch for " ++ key]
      throw (.mismatch key)

def rekeyAll (c : EncryptingClient) (keys : List String) : Step Nat := do
  let results ← keys.mapM fun key => Step.task (c.rekey ⟨bucket, key⟩)
  return results.countP RekeyResult.rekeyed

/-! ## The whole run -/

/-- Runs the benchmark with a payload of so many bytes. -/
def run (env : Environment) (read : FileReader) (size : Nat) (wanted : Option Int) : Step Rates := do
  Step.print ["=== Envelope S3 Benchmark ===", ""]
  let settings ← startUp env read
  let count ← wanted.elim askCount pure
  Step.print [s!"Testing with {count} objects", ""]
  let client := clientOf settings
  let payload ← ExceptT.lift (Program.filler size)
  let keys := objectKeys count
  Step.print (heading "BENCHMARK START")

  Step.print (banner s!"Demo 1: Write {count} Encrypted Objects")
  let ((), duration) ← Step.timed (writeAll client payload keys)
  Step.print [s!"[OK] Wrote {count} objects ({size} bytes each)"]
  let writing ← Step.of (rate count duration)
  Step.print (performance duration writing)

  Step.print (banner s!"Demo 2: Read {count} Encrypted Objects")
  let ((), duration) ← Step.timed (readAll client payload keys)
  Step.print [s!"[OK] Read and verified {count} objects"]
  let reading ← Step.of (rate count duration)
  Step.print (performance duration reading)

  Step.print (banner "Demo 3: Master Key Rotation + Rekey")
  let ring := settings.encryption.ring
  let bits := settings.encryption.keySize.bits
  let rotated ← Step.of
    ((EncryptionSettings.make (ring.rotated (← Step.invoke .newKey)) bits ".temp").mapError .config)
  let (rekeyed, duration) ← Step.timed (rekeyAll (clientOf rotated) keys)
  let oldKey := (ring.current.keyId.take 12).toString
  Step.print [s!"[OK] Rekeyed {rekeyed} objects from master key {oldKey}..."]
  let rekeying ← Step.of (rate count duration)
  Step.print (performance duration rekeying)

  Step.print (banner "Demo 4: Second Rekey Pass")
  let (again, duration) ← Step.timed (rekeyAll (clientOf rotated) keys)
  let skipped := keys.length - again
  Step.print [s!"[OK] {skipped}/{count} objects already used the current master key",
    "[PERF] Time: " ++ milliseconds duration, ""]

  Step.print (banner "Demo 5: Read With New Master Key Only")
  let newOnly ← Step.of
    ((EncryptionSettings.make (KeyRing.make rotated.encryption.ring.current []) 256 ".temp").mapError .config)
  let ((), duration) ← Step.timed (readAll (clientOf newOnly) payload keys)
  Step.print ["[OK] All objects readable without the old master key"]
  Step.print (performance duration (← Step.of (rate count duration)))

  let rates : Rates := { write := writing, read := reading, rekey := rekeying }
  Step.print (heading "BENCHMARK SUMMARY")
  let stored ← Step.task (Client.list bucket "")
  let left := stored.countP (·.endsWith settings.tempSuffix)
  Step.print [s!"Objects stored: {stored.length} (temp objects left: {left})"]
  Step.print (table rates ++ configuration count bits ++ heading "BENCHMARK COMPLETE")
  return rates

def runArguments (env : Environment) (read : FileReader) (size : Nat) (arguments : List String) :
    Step Rates := do
  run env read size (← Step.of (countOfArguments arguments))

end SealedStore.Benchmark
