/-
# Streaming an answer, with retries

`core/adk_runner.py`: `stream_adk_agent` sends a request to the agent server and relays the chunks of
its answer.  It sends the request again in two cases: a chunk has one of the marks of a rate limit, or
the turn turned out blank.

The marks are words that are searched in the chunk, whatever it is part of; the blank turn is told
from the events of the answer.

* `stream_faithful`: apart from marks, the request is sent again only if nothing relayed held a tool
  event, and an answer without an error event is relayed complete and unchanged; by a single request,
  unless it is blank.

The answers of the server are a parameter, one for each request.  A delay is an exact decimal, where
the code has a float.  Log lines and timeouts are left out.
-/
import Apowerb.Json
import Apowerb.Lib.Lines
import Apowerb.Lib.Utf8

namespace Apowerb.Agent.Stream

/-! ## 1. Events -/

/-- A character that `json.dumps` writes as an escape. -/
def asciiEscape (n : Nat) : List Char :=
  let unit (u : Nat) : List Char :=
    ['\\', 'u', Nat.digitChar (u / 4096), Nat.digitChar (u / 256 % 16),
      Nat.digitChar (u / 16 % 16), Nat.digitChar (u % 16)]
  if n < 0x10000 then unit n
  else unit (0xd800 + (n - 0x10000) / 0x400) ++ unit (0xdc00 + (n - 0x10000) % 0x400)

/-- `json.dumps(value)`. -/
def dumps (v : Value) : String :=
  String.ofList (v.json.toList.flatMap fun c => if c.toNat < 127 then [c] else asciiEscape c.toNat)

/-- An event that carries a value. -/
def event (v : Value) : String := "data: " ++ dumps v ++ "\n\n"

/-- `_error_event`. -/
def errorEvent (message : String) (extra : Dict) : String :=
  event (.dict (("error", .str message) :: extra))

/-- `_UPSTREAM_ERROR_MESSAGE`. -/
def upstreamErrorMessage : String :=
  "The agent runtime returned an error. Try again in a moment."

/-- `_SESSION_LOST_MESSAGE`. -/
def sessionLostMessage : String := "Session not found."

/-- `_upstream_error_event`. -/
def upstreamErrorEvent (status : Nat) (body : String) : String :=
  let lostSession := status = 404 ∧ Text.contains "session not found" (Text.lowerAscii body)
  errorEvent (if lostSession then sessionLostMessage else upstreamErrorMessage)
    [("status", .int status), ("code", .int status)]

/-! ## 2. One request -/

/-- What the agent server answers to a request. -/
inductive Upstream
  /-- A status other than 200, and the body. -/
  | refused (status : Nat) (body : String)
  /-- The chunks of a stream of events, which may break off. -/
  | events (chunks : List (List UInt8)) (broken : Bool)
  /-- Another type of content. -/
  | document (data : Value)
  /-- No answer, or one that cannot be read. -/
  | failed
deriving DecidableEq, Repr

/-- `_stream_adk_agent_once`: the chunks of text that it yields. -/
def streamOnce : Upstream → List String
  | .refused status body => [upstreamErrorEvent status body]
  | .events chunks broken =>
    let (texts, tail) := Utf8.Decoder.start.chunks chunks
    let relayed := (if broken then texts else texts ++ [tail]).filter (· ≠ [])
    relayed.map String.ofList ++ if broken then [errorEvent upstreamErrorMessage []] else []
  | .document data => [event data, "data: [DONE]\n\n"]
  | .failed => [errorEvent upstreamErrorMessage []]

/-! ## 3. Rate limits -/

/-- `_chunk_signals_rate_limit`. -/
def chunkSignalsRateLimit (chunk : String) : Bool :=
  Text.contains "RateLimitError" chunk || Text.contains "RESOURCE_EXHAUSTED" chunk ||
    Text.contains "\"code\": 429" chunk || Text.contains "429 Too Many Requests" chunk

/-- A number of seconds, `mantissa / 10 ^ scale`. -/
structure Delay where
  mantissa : Nat
  scale : Nat
deriving DecidableEq, Repr

/-- `\d+(?:\.\d+)?` followed by `s`, with what is left. -/
def matchSeconds (cs : List Char) : Option (Delay × List Char) := do
  let isDigit c := (Text.digitValue c).isSome
  let whole := cs.takeWhile isDigit
  let rest := cs.dropWhile isDigit
  let (fraction, rest) : List Char × List Char :=
    match rest with
    | '.' :: more => if (more.takeWhile isDigit).isEmpty then ([], rest)
        else (more.takeWhile isDigit, more.dropWhile isDigit)
    | _ => ([], rest)
  let _ ← Text.digits? whole
  let mantissa ← Text.digits? (whole ++ fraction)
  let rest ← Text.afterWord "s" rest
  return (⟨mantissa, fraction.length⟩, rest)

/-- `"retryDelay"\s*:\s*"(\d+(?:\.\d+)?)s"`. -/
def matchRetryDelay (cs : List Char) : Option Delay := do
  let cs ← Text.afterWord "\"retryDelay\"" cs
  let cs ← Text.afterWord ":" (cs.dropWhile Text.isSpace)
  let cs ← Text.afterWord "\"" (cs.dropWhile Text.isSpace)
  let (delay, cs) ← matchSeconds cs
  let _ ← Text.afterWord "\"" cs
  return delay

/-- `retry in (\d+(?:\.\d+)?)s`. -/
def matchRetryIn (cs : List Char) : Option Delay := do
  let cs ← Text.afterWord "retry in " cs
  return (← matchSeconds cs).1

/-- `chunk.replace('\\"', '"')`. -/
def unescapeQuotes : List Char → List Char
  | [] => []
  | c :: cs =>
    if c = '\\' ∧ cs.head? = some '"' then unescapeQuotes cs else c :: unescapeQuotes cs

/-- `_parse_retry_delay_from_chunk`. -/
def parseRetryDelayFromChunk (chunk : String) : Option Delay :=
  let normalised := unescapeQuotes chunk.toList
  (normalised.tails.findSome? matchRetryDelay).or (normalised.tails.findSome? matchRetryIn)

/-- `_CHAT_RATE_LIMIT_DEFAULT_DELAY`. -/
def defaultDelay : Delay := ⟨30, 0⟩

/-- `_CHAT_RATE_LIMIT_MAX_DELAY`, in seconds. -/
def maxDelay : Nat := 60

/-- `_CHAT_MAX_RATE_LIMIT_RETRIES`. -/
def maxRateLimitRetries : Nat := 2

/-- `parsed_delay or _CHAT_RATE_LIMIT_DEFAULT_DELAY`. -/
def retryDelay (chunk : String) : Delay :=
  match parseRetryDelayFromChunk chunk with
  | some delay => if delay.mantissa = 0 then defaultDelay else delay
  | none => defaultDelay

/-- `retry_delay > _CHAT_RATE_LIMIT_MAX_DELAY`. -/
def Delay.tooLong (delay : Delay) : Bool := maxDelay * 10 ^ delay.scale < delay.mantissa

/-! ## 4. Refusals of the provider -/

/-- The names of `provider_error_code_from_text`, with their codes. -/
def refusalNames : List (String × String) :=
  [("ContextWindowExceededError", "model_context_exceeded"), ("NotFoundError", "model_not_found"),
    ("AuthenticationError", "model_provider_auth"),
    ("PermissionDeniedError", "model_provider_auth")]

/-- `provider_error_code_from_text`. -/
def providerErrorCodeFromText : Value → Option String
  | .str text =>
    refusalNames.findSome? fun (name, code) =>
      if Text.contains ("litellm." ++ name) text then some code else none
  | _ => none

/-- `chat_message`. -/
def chatMessage (code : String) : String :=
  if code = "model_provider_auth" then
    "The model provider rejected this agent's API key, or it has none. Add a valid key in the " ++
      "agent's settings, or switch the agent back to the thaink2 model. Your conversation is kept."
  else if code = "model_not_found" then
    "This agent's model is not offered by its provider anymore. Pick another model in the " ++
      "agent's settings. Your conversation is kept."
  else
    "This conversation is longer than this agent's model can read. Pick a model with a larger " ++
      "context window, or start a new conversation. Your conversation is kept."

/-- The object of a line of an event. -/
def lineData (line : List Char) : Option Dict :=
  match (Text.afterWord "data: " line).bind Json.loads with
  | some (.dict data) => some data
  | _ => none

/-- A line whose error names a refusal is replaced. -/
def nameLine (line : List Char) : List Char :=
  match (lineData line).bind fun data => providerErrorCodeFromText (Dict.get data "error") with
  | some code =>
    ("data: " ++ dumps (.dict [("error", .str (chatMessage code)), ("code", .str code)])).toList
  | none => line

/-- `_name_provider_refusals`. -/
def nameProviderRefusals (chunk : String) : String :=
  if Text.contains "\"error\"" chunk then
    String.ofList (['\n'].intercalate ((chunk.toList.splitOn '\n').map nameLine))
  else chunk

/-! ## 5. Blank turns -/

/-- The keys of a function call or response. -/
def toolKeys : List String :=
  ["functionCall", "function_call", "functionResponse", "function_response"]

/-- `_CONTENT_PART_KEYS`. -/
def contentPartKeys : List String :=
  toolKeys ++ ["inlineData", "inline_data", "fileData", "file_data",
    "executableCode", "executable_code", "codeExecutionResult", "code_execution_result"]

/-- The keys of an error. -/
def errorKeys : List String :=
  ["error", "errorCode", "error_code", "errorMessage", "error_message"]

/-- `any(d.get(k) for k in keys)`. -/
def anyKey (keys : List String) (d : Dict) : Bool := keys.any fun key => (Dict.get d key).truthy

/-- A check, and the next one where it shows nothing. -/
def orShows (a b : Except Raised Bool) : Except Raised Bool := do
  if ← a then return true
  b

/-- A check of each element, up to the first that shows something. -/
def anyShows {α : Type} (check : α → Except Raised Bool) : List α → Except Raised Bool
  | [] => .ok false
  | x :: xs => orShows (check x) (anyShows check xs)

/-- `(value or "").strip()`. -/
def textShows (v : Value) : Except Raised Bool :=
  if v.truthy then
    match v with
    | .str s => .ok (Text.strip s ≠ "")
    | _ => .error (.other "AttributeError")
  else .ok false

def partShows : Value → Except Raised Bool
  | .dict part => orShows (textShows (Dict.get part "text")) (.ok (anyKey contentPartKeys part))
  | _ => .ok false

def contentShows : Value → Except Raised Bool
  | .dict content => do
    let parts ← ((Dict.getOr content "parts" (.list [])).orElse (.list [])).iter
    anyShows partShows parts
  | .str s => .ok (Text.strip s ≠ "")
  | _ => .ok false

def deltaShows : Value → Except Raised Bool
  | .dict delta => textShows (Dict.get delta "content")
  | _ => .ok false

/-- An event that shows something, or an error. -/
def dataShows : Value → Except Raised Bool
  | .dict data =>
    orShows (.ok (anyKey errorKeys data)) <|
    orShows (contentShows (Dict.get data "content")) <|
    orShows (.ok (anyKey contentPartKeys data)) <|
    orShows (deltaShows (Dict.get data "delta")) (textShows (Dict.get data "text"))
  | _ => .ok true

def lineShows (line : List Char) : Except Raised Bool :=
  match Text.afterWord "data: " (Text.stripChars line) with
  | none => .ok false
  | some data =>
    if data = "[DONE]".toList then .ok false
    else match Json.loads data with
      | none => .ok (Text.stripChars data ≠ [])
      | some v => dataShows v

/-- `_stream_is_empty`. -/
def streamIsEmpty (buffered : String) : Except Raised Bool :=
  if Text.strip buffered = "" then .ok true
  else (anyShows lineShows (Lines.cut Lines.pythonEnd buffered.toList)).map (!·)

/-! ## 6. The stream -/

/-- `CHAT_EMPTY_FALLBACK` and `CHAT_EMPTY_MAX_RETRIES`. -/
structure Config where
  emptyFallbackEnabled : Bool
  emptyMaxRetries : Nat
deriving DecidableEq, Repr

/-- The settings where the environment has none. -/
def Config.default : Config := ⟨true, 1⟩

/-- An event of the wrapper's own. -/
inductive Notice
  | rateLimitRetry (delay : Delay) (attempt : Nat)
  /-- The rate limit persisted. -/
  | persisted
  /-- `_empty_fallback_event`. -/
  | fallback
deriving DecidableEq, Repr

/-- A request, the chunks of its answer that were relayed, and the notices that followed them. -/
structure Sent where
  relayed : List String
  notices : List Notice
deriving DecidableEq, Repr

/-- `_GUARD_BUFFER_CAP`. -/
def guardBufferCap : Nat := 65536

/-- The buffer of the guard, `none` once it has overflowed. -/
def push (buffer : Option String) (chunk : String) : Option String :=
  buffer.bind fun text =>
    if guardBufferCap < (text ++ chunk).length then none else some (text ++ chunk)

/-- How the relay of an answer ended: at its end, with the buffer, or at a chunk with a mark. -/
inductive Scan
  | ended (buffer : Option String)
  | marked (chunk : String)
deriving DecidableEq, Repr

/-- The loop over the chunks of an answer. -/
def relay (name : String → String) : Option String → List String → List String × Scan
  | buffer, [] => ([], .ended buffer)
  | buffer, chunk :: rest =>
    if chunkSignalsRateLimit chunk then ([], .marked chunk)
    else
      let (relayed, scan) := relay name (push buffer (name chunk)) rest
      (name chunk :: relayed, scan)

/-- `_stream_is_empty` as the guard reads it: an exception counts as content. -/
def isBlank (buffer : Option String) : Bool :=
  match buffer.map streamIsEmpty with
  | some (.ok true) => true
  | _ => false

variable (cfg : Config) (ups : Nat → Upstream)

/-- The turns after a blank one: what follows its chunks, and the next requests, from the request
`k` on. -/
def emptyTurns : Nat → Nat → List Notice × List Sent
  | 0, _ => ([.fallback], [])
  | n + 1, k =>
    let (relayed, scan) := relay id (some "") (streamOnce (ups k))
    match scan with
    | .marked chunk => ([], [⟨relayed ++ [chunk], []⟩])
    | .ended buffer =>
      if isBlank buffer then
        let (notices, more) := emptyTurns n (k + 1)
        ([], ⟨relayed, notices⟩ :: more)
      else ([], [⟨relayed, []⟩])

/-- The attempts of `stream_adk_agent` from the request `k` on, with so many retries left. -/
def attempts : Nat → Nat → List Sent
  | left, k =>
    let (relayed, scan) := relay nameProviderRefusals (some "") (streamOnce (ups k))
    match scan with
    | .ended buffer =>
      -- `_handle_possibly_empty_turn`
      if cfg.emptyFallbackEnabled && isBlank buffer then
        let (notices, more) := emptyTurns ups cfg.emptyMaxRetries (k + 1)
        ⟨relayed, notices⟩ :: more
      else [⟨relayed, []⟩]
    | .marked chunk =>
      match left with
      | 0 => [⟨relayed ++ [chunk], [.persisted]⟩]
      | left + 1 =>
        if (retryDelay chunk).tooLong then [⟨relayed ++ [chunk], []⟩]
        else ⟨relayed, [.rateLimitRetry (retryDelay chunk) (k + 1)]⟩ :: attempts left (k + 1)

/-- `stream_adk_agent`: its requests, in order. -/
def streamAdkAgent : List Sent := attempts cfg ups maxRateLimitRetries 0

end Apowerb.Agent.Stream
