/-!
The texts that the test runner brings along: Elm modules and JavaScript templates.  They are installed
in a folder of their own, and are not looked up in the project under test.
-/

namespace ElmSuite

/-- A text that is installed with the test runner. -/
inductive Asset
  /-- The Elm module that gathers all tests. -/
  | runner
  /-- The Elm module that turns results into a report. -/
  | reporter
  /-- The worker that runs single tests. -/
  | nodeRunner
  /-- The process that hands tests to workers. -/
  | nodeSupervisor
  /-- Definitions that compiled Elm code expects of its host. -/
  | polyfills
deriving DecidableEq, Repr

namespace Asset

/-- The file name of an asset. -/
def fileName : Asset → String
  | .runner => "Runner.elm"
  | .reporter => "Reporter.elm"
  | .nodeRunner => "node_runner.js"
  | .nodeSupervisor => "node_supervisor.js"
  | .polyfills => "node_polyfills.js"

/-- The lines of `Runner.elm`. -/
def runnerLines : List String :=
  [ "port module Runner exposing (main)"
  , ""
  , "\x7b\x7b user_imports \x7d\x7d"
  , "import ElmTestRunner.Runner exposing (Flags, Model, Msg)"
  , "import Json.Encode exposing (Value)"
  , "import Test exposing (Test)"
  , ""
  , ""
  , "port askTestsCount : (Value -> msg) -> Sub msg"
  , ""
  , ""
  , "port sendTestsCount : \x7b kind : String, testsCount : Int \x7d -> Cmd msg"
  , ""
  , ""
  , "port receiveRunTest : (Int -> msg) -> Sub msg"
  , ""
  , ""
  , "port sendResult : \x7b id : Int, result : Value \x7d -> Cmd msg"
  , ""
  , ""
  , "check : a -> Maybe Test"
  , "check ="
  , "    checkHelperReplaceMe___"
  , ""
  , ""
  , "checkHelperReplaceMe___ : a -> Maybe Test"
  , "checkHelperReplaceMe___ _ ="
  , "    Debug.todo \"\"\"The code replacing this Debug.todo after compilation did not run,"
  , "since you see this message! Please report this bug to the elmtest maintainers."
  , "\"\"\""
  , ""
  , ""
  , "main : Program Flags Model Msg"
  , "main ="
  , "    [ \x7b\x7b tests \x7d\x7d"
  , "    ]"
  , "        |> List.filterMap"
  , "            (\\\x7b module_, maybeTests \x7d ->"
  , "                case List.filterMap identity maybeTests of"
  , "                    [] ->"
  , "                        Nothing"
  , ""
  , "                    tests ->"
  , "                        Just (Test.describe module_ tests)"
  , "            )"
  , "        |> ElmTestRunner.Runner.worker"
  , "            \x7b askTestsCount = askTestsCount"
  , "            , sendTestsCount = sendTestsCount"
  , "            , receiveRunTest = receiveRunTest"
  , "            , sendResult = sendResult"
  , "            \x7d" ]

/-- The lines of `Reporter.elm`. -/
def reporterLines : List String :=
  [ "port module Reporter exposing (main)"
  , ""
  , "import ElmTestRunner.Reporter exposing (Flags, Model, Msg)"
  , "import Json.Encode exposing (Value)"
  , ""
  , ""
  , "port restart : (\x7b kind : String, testsCount : Int \x7d -> msg) -> Sub msg"
  , ""
  , ""
  , "port incomingResult : (\x7b result : Value \x7d -> msg) -> Sub msg"
  , ""
  , ""
  , "port summarize : (Value -> msg) -> Sub msg"
  , ""
  , ""
  , "port stdout : String -> Cmd msg"
  , ""
  , ""
  , "port signalFinished : \x7b exitCode : Int, testsCount : Int \x7d -> Cmd msg"
  , ""
  , ""
  , "main : Program Flags Model Msg"
  , "main ="
  , "    ElmTestRunner.Reporter.worker"
  , "        \x7b restart = restart"
  , "        , incomingResult = incomingResult"
  , "        , summarize = summarize"
  , "        , stdout = stdout"
  , "        , signalFinished = signalFinished"
  , "        \x7d" ]

/-- The lines of `node_runner.js`. -/
def nodeRunnerLines : List String :=
  [ "// Worker thread running the tests of the compiled Runner.elm on request."
  , ""
  , "\x7b\x7b polyfills \x7d\x7d"
  , ""
  , "const \x7b parentPort \x7d = require(\"worker_threads\");"
  , "const \x7b Elm \x7d = require(\"./Runner.elm.js\");"
  , ""
  , "const app = Elm.Runner.init(\x7b"
  , "  flags: \x7b initialSeed: \x7b\x7b initialSeed \x7d\x7d, fuzzRuns: \x7b\x7b fuzzRuns \x7d\x7d \x7d,"
  , "\x7d);"
  , ""
  , "app.ports.sendTestsCount.subscribe((\x7b kind, testsCount \x7d) => \x7b"
  , "  parentPort.postMessage(\x7b type: \"testsCount\", kind, testsCount \x7d);"
  , "\x7d);"
  , ""
  , "app.ports.sendResult.subscribe((\x7b id, result \x7d) => \x7b"
  , "  parentPort.postMessage(\x7b type: \"result\", id, result \x7d);"
  , "\x7d);"
  , ""
  , "parentPort.on(\"message\", (msg) => \x7b"
  , "  if (msg.type === \"askTestsCount\") \x7b"
  , "    app.ports.askTestsCount.send(null);"
  , "  \x7d else if (msg.type === \"runTest\") \x7b"
  , "    app.ports.receiveRunTest.send(msg.id);"
  , "  \x7d"
  , "\x7d);" ]

/-- The lines of `node_supervisor.js`. -/
def nodeSupervisorLines : List String :=
  [ "// Supervisor distributing the tests over worker threads and feeding the"
  , "// results to the compiled Reporter.elm. It reads one line on stdin: the"
  , "// path of the node runner module each worker executes."
  , ""
  , "\x7b\x7b polyfills \x7d\x7d"
  , ""
  , "const readline = require(\"readline\");"
  , "const \x7b Worker \x7d = require(\"worker_threads\");"
  , "const \x7b Elm \x7d = require(\"./Reporter.elm.js\");"
  , ""
  , "const nbWorkers = \x7b\x7b nb_workers \x7d\x7d;"
  , "const initialSeed = \x7b\x7b initialSeed \x7d\x7d;"
  , "const fuzzRuns = \x7b\x7b fuzzRuns \x7d\x7d;"
  , "const mode = \"\x7b\x7b reporter \x7d\x7d\";"
  , ""
  , "const workers = [];"
  , "let testsCount = 0;"
  , "let nextTest = 0;"
  , "let doneCount = 0;"
  , ""
  , "const reporter = Elm.Reporter.init(\x7b"
  , "  flags: \x7b initialSeed, fuzzRuns, mode \x7d,"
  , "\x7d);"
  , ""
  , "reporter.ports.stdout.subscribe((text) => process.stdout.write(text));"
  , ""
  , "reporter.ports.signalFinished.subscribe(async (\x7b exitCode \x7d) => \x7b"
  , "  await Promise.all(workers.map((worker) => worker.terminate()));"
  , "  process.exitCode = exitCode;"
  , "\x7d);"
  , ""
  , "function runNext(worker) \x7b"
  , "  if (nextTest < testsCount) \x7b"
  , "    worker.postMessage(\x7b type: \"runTest\", id: nextTest \x7d);"
  , "    nextTest += 1;"
  , "  \x7d"
  , "\x7d"
  , ""
  , "function listen(worker) \x7b"
  , "  worker.on(\"message\", (msg) => \x7b"
  , "    if (msg.type !== \"result\") \x7b"
  , "      return;"
  , "    \x7d"
  , "    reporter.ports.incomingResult.send(\x7b result: msg.result \x7d);"
  , "    doneCount += 1;"
  , "    if (doneCount === testsCount) \x7b"
  , "      reporter.ports.summarize.send(null);"
  , "    \x7d else \x7b"
  , "      runNext(worker);"
  , "    \x7d"
  , "  \x7d);"
  , "  worker.on(\"error\", (error) => \x7b"
  , "    console.error(error);"
  , "    process.exit(1);"
  , "  \x7d);"
  , "\x7d"
  , ""
  , "function start(runnerPath) \x7b"
  , "  const first = new Worker(runnerPath);"
  , "  workers.push(first);"
  , "  first.once(\"message\", (msg) => \x7b"
  , "    testsCount = msg.testsCount;"
  , "    reporter.ports.restart.send(\x7b kind: msg.kind, testsCount \x7d);"
  , "    if (testsCount === 0) \x7b"
  , "      reporter.ports.summarize.send(null);"
  , "      return;"
  , "    \x7d"
  , "    for (let i = 1; i < Math.min(nbWorkers, testsCount); i++) \x7b"
  , "      workers.push(new Worker(runnerPath));"
  , "    \x7d"
  , "    workers.forEach((worker) => \x7b"
  , "      listen(worker);"
  , "      runNext(worker);"
  , "    \x7d);"
  , "  \x7d);"
  , "  first.postMessage(\x7b type: \"askTestsCount\" \x7d);"
  , "\x7d"
  , ""
  , "const input = readline.createInterface(\x7b input: process.stdin \x7d);"
  , "input.once(\"line\", (line) => \x7b"
  , "  input.close();"
  , "  process.stdin.destroy();"
  , "  start(line.trim());"
  , "\x7d);" ]

/-- The lines of `node_polyfills.js`. -/
def polyfillsLines : List String :=
  [ "// Browser globals the compiled Elm code may look for when run under node."
  , "if (typeof globalThis.requestAnimationFrame === \"undefined\") \x7b"
  , "  globalThis.requestAnimationFrame = (callback) =>"
  , "    setTimeout(() => callback(Date.now()), 0);"
  , "\x7d"
  , "if (typeof globalThis.performance === \"undefined\") \x7b"
  , "  globalThis.performance = require(\"perf_hooks\").performance;"
  , "\x7d" ]

/-- The lines of an asset. -/
def lines : Asset → List String
  | .runner => runnerLines
  | .reporter => reporterLines
  | .nodeRunner => nodeRunnerLines
  | .nodeSupervisor => nodeSupervisorLines
  | .polyfills => polyfillsLines

/-- The text of an asset, every line ended. -/
def text (asset : Asset) : List Char :=
  asset.lines.flatMap fun line => line.toList ++ ['\n']

end Asset

end ElmSuite
