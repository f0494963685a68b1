/-!
# Flags

The closed set of flags that the policy knows, each with its one spelling. A flag is either allowed
or denied; any other spelling is unsupported. Denied flags touch local files, credentials or
routing, or print help.

Among the allowed flags some take the next word as their value, and some of those carry request
data or a request header, whose value could name a file to be read.
-/

namespace CurlWarden

/-- A flag that the policy knows; a long spelling is a flag of its own. -/
inductive Flag where
  | request
  | requestLong
  | header
  | headerLong
  | head
  | headLong
  | silent
  | silentLong
  | noProgressMeter
  | verbose
  | verboseLong
  | compressed
  | location
  | locationLong
  | maxTime
  | connectTimeout
  | http11
  | http2
  | data
  | dataLong
  | dataRaw
  | dataBinary
  | dataUrlencode
  | config
  | configLong
  | output
  | outputLong
  | remoteName
  | remoteNameLong
  | writeOut
  | dumpHeader
  | trace
  | traceAscii
  | traceTime
  | uploadFile
  | uploadFileLong
  | user
  | userLong
  | proto
  | protoRedir
  | interface
  | proxy
  | help
  | manual
  deriving DecidableEq, Repr

namespace Flag

def all : List Flag :=
  [.request, .requestLong, .header, .headerLong, .head, .headLong, .silent, .silentLong,
   .noProgressMeter, .verbose, .verboseLong, .compressed, .location, .locationLong, .maxTime,
   .connectTimeout, .http11, .http2, .data, .dataLong, .dataRaw, .dataBinary, .dataUrlencode,
   .config, .configLong, .output, .outputLong, .remoteName, .remoteNameLong, .writeOut,
   .dumpHeader, .trace, .traceAscii, .traceTime, .uploadFile, .uploadFileLong, .user,
   .userLong, .proto, .protoRedir, .interface, .proxy, .help, .manual]

def spelling : Flag → String
  | .request => "-X"
  | .requestLong => "--request"
  | .header => "-H"
  | .headerLong => "--header"
  | .head => "-I"
  | .headLong => "--head"
  | .silent => "-s"
  | .silentLong => "--silent"
  | .noProgressMeter => "--no-progress-meter"
  | .verbose => "-v"
  | .verboseLong => "--verbose"
  | .compressed => "--compressed"
  | .location => "-L"
  | .locationLong => "--location"
  | .maxTime => "--max-time"
  | .connectTimeout => "--connect-timeout"
  | .http11 => "--http1.1"
  | .http2 => "--http2"
  | .data => "-d"
  | .dataLong => "--data"
  | .dataRaw => "--data-raw"
  | .dataBinary => "--data-binary"
  | .dataUrlencode => "--data-urlencode"
  | .config => "-K"
  | .configLong => "--config"
  | .output => "-o"
  | .outputLong => "--output"
  | .remoteName => "-O"
  | .remoteNameLong => "--remote-name"
  | .writeOut => "--write-out"
  | .dumpHeader => "--dump-header"
  | .trace => "--trace"
  | .traceAscii => "--trace-ascii"
  | .traceTime => "--trace-time"
  | .uploadFile => "-T"
  | .uploadFileLong => "--upload-file"
  | .user => "-u"
  | .userLong => "--user"
  | .proto => "--proto"
  | .protoRedir => "--proto-redir"
  | .interface => "--interface"
  | .proxy => "--proxy"
  | .help => "--help"
  | .manual => "--manual"

def ofSpelling? (word : String) : Option Flag := all.find? (·.spelling == word)

def carriesData : Flag → Bool
  | .data | .dataLong | .dataRaw | .dataBinary | .dataUrlencode => true
  | _ => false

def carriesHeader : Flag → Bool
  | .header | .headerLong => true
  | _ => false

/-- Does the flag take the next word as its value? -/
def takesValue (flag : Flag) : Bool :=
  flag.carriesData || flag.carriesHeader ||
    flag matches .request | .requestLong | .maxTime | .connectTimeout

def isAllowed : Flag → Bool
  | .config | .configLong | .output | .outputLong | .remoteName | .remoteNameLong | .writeOut
  | .dumpHeader | .trace | .traceAscii | .traceTime | .uploadFile | .uploadFileLong | .user
  | .userLong | .proto | .protoRedir | .interface | .proxy | .help | .manual => false
  | _ => true

def isDenied (flag : Flag) : Bool := !flag.isAllowed

/-- Would the program read a local file if given `value` for this flag? In URL-encoded data an
at sign before the first equals sign names a file, elsewhere one at the start. -/
def readsFile (flag : Flag) (value : String) : Bool :=
  if flag = .dataUrlencode then (value.toList.takeWhile (· != '=')).contains '@'
  else if flag.carriesData || flag.carriesHeader then value.toList.head? == some '@'
  else false

/-! ### The table of spellings -/

theorem mem_all (flag : Flag) : flag ∈ all := by cases flag <;> decide

theorem spelling_injective {f g : Flag} (h : f.spelling = g.spelling) : f = g := by
  have table : ∀ f ∈ all, ∀ g ∈ all, f.spelling = g.spelling → f = g := by decide +kernel
  exact table f (mem_all f) g (mem_all g) h

theorem ofSpelling?_eq_some_iff {word : String} {flag : Flag} :
    ofSpelling? word = some flag ↔ flag.spelling = word := by
  constructor
  · intro h
    simpa using List.find?_some h
  · rintro rfl
    cases hf : ofSpelling? flag.spelling with
    | none => simpa using List.find?_eq_none.1 hf flag (mem_all flag)
    | some g => exact congrArg some (spelling_injective (by simpa using List.find?_some hf))

theorem isAllowed_of_takesValue {flag : Flag} (h : flag.takesValue = true) :
    flag.isAllowed = true := by
  cases flag <;> first | rfl | exact absurd h (by decide)

end Flag

end CurlWarden
