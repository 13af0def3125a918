/-
**`http/HttpRequest`: the incremental request parser.**

`RequestParser` is the class of that name. Its members are split by what reads them: `HeaderFields`
is what the field lines are collected into, `ParserFields` adds the cursor, the counters and the
body, and `RequestParser` adds the array `storage_`. The line checks get a line and the collected
fields, so they cannot depend on stale array cells. `size_t` and `uint64_t` members are natural
numbers; the two accumulating loops carry the source's own overflow tests.

* `validateRequestLine`, `validateHeader`, `validateTokenList`, `validateChunkSize`,
  `validateChunkExtensions` — the checks of one finished line, with the bytes they visit
  (`Counted`, for `scanSteps_`).
* `finishHeaders`, `finishLine`, `feedChunkMetadata`, `appendBody` — the state changes.
* `feedRequestBytes` — the loop over one offered piece of input; `resetRequestParser`;
  `parseRequest` — the whole-input parser.

The source reads `char`, which is signed; every comparison it makes on a `char` has the same outcome
on the unsigned byte.
-/

import HpServer.Base.Bytes

namespace HpServer.Http

def kMaxHeaderBytes : Nat := 16 * 1024
def kMaxBodyBytes : Nat := 1024 * 1024
def kMaxRequestLineBytes : Nat := 4 * 1024
def kMaxChunkLineBytes : Nat := 1024
def kMaxChunkMetadataBytes : Nat := 64 * 1024
def kMaxTrailerBytes : Nat := 8 * 1024

/-- The largest `uint64_t`. -/
def uint64Max : Nat := 2 ^ 64 - 1

structure RequestHead where
  method : Bytes
  target : Bytes
  closeRequested : Bool := false
  deriving DecidableEq, Repr

structure StaticField where
  value : Bytes := []
  present : Bool := false
  duplicate : Bool := false
  deriving DecidableEq, Repr

structure StaticRequestFields where
  ifNoneMatch : StaticField := {}
  ifModifiedSince : StaticField := {}
  range : StaticField := {}
  ifRange : StaticField := {}
  deriving DecidableEq, Repr

structure ContentTypeField where
  value : Bytes := []
  present : Bool := false
  duplicate : Bool := false
  deriving DecidableEq, Repr

structure HttpRequest where
  method : Bytes := []
  target : Bytes := []
  closeRequested : Bool := false
  body : Bytes := []
  staticFields : StaticRequestFields := {}
  contentType : ContentTypeField := {}
  deriving DecidableEq, Repr

inductive ParseStatus where
  | needMore | complete | badRequest | payloadTooLarge | methodNotAllowed | headersComplete
  | expectationFailed | notImplemented
  deriving DecidableEq, Repr

structure ParseResult where
  status : ParseStatus := .needMore
  request : HttpRequest := {}
  consumedBytes : Nat := 0
  deriving DecidableEq, Repr

inductive ParserState where
  | requestLine | headers | body | chunkSize | chunkData | chunkDataCrlf | trailers | complete
  | error
  deriving DecidableEq, Repr

structure FeedResult where
  status : ParseStatus := .needMore
  request : HttpRequest := {}
  acceptedBytes : Nat := 0
  requestBytes : Nat := 0
  head : Option RequestHead := none
  deriving DecidableEq, Repr

/-- The members the field lines are collected into. -/
structure HeaderFields where
  hostSeen : Bool := false
  contentLengthSeen : Bool := false
  closeRequested : Bool := false
  contentLength : Nat := 0
  staticFields : StaticRequestFields := {}
  contentType : ContentTypeField := {}
  staticFieldBytes : Nat := 0
  transferEncodingSeen : Bool := false
  unsupportedCoding : Bool := false
  expectSeen : Bool := false
  expectContinue : Bool := false
  trailerDeclarationSeen : Bool := false
  deriving DecidableEq, Repr

/-- Every member of `RequestParser` but its array. -/
structure ParserFields extends HeaderFields where
  state : ParserState := .requestLine
  status : ParseStatus := .needMore
  pendingCr : Bool := false
  headRequest : Bool := false
  lineStart : Nat := 0
  lineSize : Nat := 0
  requestBytes : Nat := 0
  methodSize : Nat := 0
  targetStart : Nat := 0
  targetSize : Nat := 0
  scanSteps : Nat := 0
  peakBuffered : Nat := 0
  headerBytes : Nat := 0
  body : Bytes := []
  chunkRemaining : Nat := 0
  metadataBytes : Nat := 0
  trailerBytes : Nat := 0
  chunkLineBytes : Nat := 0
  dataCrlfBytes : Nat := 0
  deriving DecidableEq, Repr

structure RequestParser extends ParserFields where
  storage : Nat → UInt8 := fun _ => 0

def ParserFields.bufferedBytes (f : ParserFields) : Nat := f.lineStart + f.lineSize

/-! ### Byte classes -/

def tokenPunctuation : Bytes := text "!#$%&'*+-.^_`|~"

def isTokenCharacter (c : UInt8) : Bool :=
  (0x61 ≤ c && c ≤ 0x7a) || (0x41 ≤ c && c ≤ 0x5a) || (0x30 ≤ c && c ≤ 0x39)
    || tokenPunctuation.contains c

/-- A byte the request target may hold. -/
def isTargetByte (c : UInt8) : Bool := !(c ≤ 0x20 || c = del || c = hash)

/-- A byte a field value may hold. -/
def isValueByte (c : UInt8) : Bool := !(c = del || (c < 0x20 && c ≠ htab))

def lowerAscii (c : UInt8) : UInt8 := if 0x41 ≤ c && c ≤ 0x5a then c + 0x20 else c

/-! ### The request line -/

/-- The first loop of `validateRequestLine`: the positions of the first two spaces, `size` where
there is none; `none` at a third space. -/
def scanSpaces (size : Nat) : Bytes → Nat → Nat → Nat → Counted (Option (Nat × Nat))
  | [], _, first, second => pure (some (first, second))
  | c :: rest, i, first, second => do
    Counted.tick 1
    if c ≠ sp then scanSpaces size rest (i + 1) first second
    else if first = size then scanSpaces size rest (i + 1) i second
    else if second = size then scanSpaces size rest (i + 1) first i
    else pure none

def httpVersion : Bytes := text "HTTP/1.1"

/-- What `validateRequestLine` records of a valid request line. -/
structure RequestLineCut where
  methodSize : Nat
  targetStart : Nat
  targetSize : Nat
  headRequest : Bool
  deriving DecidableEq, Repr

def validateRequestLine (line : Bytes) : Counted (Option RequestLineCut) := do
  match ← scanSpaces line.length line 0 line.length line.length with
  | none => pure none
  | some (first, second) =>
    if first = 0 ∨ second = line.length ∨ second ≤ first + 1 then pure none
    else if !(← scanAll isTokenCharacter (line.take first)) then pure none
    else if line.getD (first + 1) nul ≠ slash then pure none
    else if !(← scanAll isTargetByte ((line.drop (first + 1)).take (second - first - 1))) then
      pure none
    else if line.length - second - 1 ≠ httpVersion.length then pure none
    else if !(← scanEqual id (line.drop (second + 1)) httpVersion) then pure none
    else
      pure (some
        { methodSize := first
          targetStart := first + 1
          targetSize := second - first - 1
          headRequest := line.take first = text "HEAD" })

/-! ### Header lines -/

def equalsAsciiCaseInsensitive (value expected : Bytes) : Counted Bool :=
  if value.length ≠ expected.length then pure false else scanEqual lowerAscii value expected

/-- Each removed byte is one step. -/
def trimHeaderWhitespace (value : Bytes) : Counted Bytes :=
  ⟨trimOws value, value.length - (trimOws value).length⟩

/-- `collectStaticField`: the field afterwards and the new `staticFieldBytes_`, or `none` where the
size check fails. -/
def collectStaticField (staticFieldBytes : Nat) (field : StaticField) (value : Bytes)
    (merge : Bool) : Option (StaticField × Nat) :=
  let separator := if merge && field.present then 1 else 0
  if separator > kMaxHeaderBytes - staticFieldBytes
      || value.length > kMaxHeaderBytes - staticFieldBytes - separator then none
  else
    let joined := if merge && field.present then field.value ++ [comma] else field.value
    some
      ({ value := if merge || !field.present then joined ++ value else joined
         present := true
         duplicate := field.present },
        staticFieldBytes + (value.length + separator))

/-- The names `validateHeader` compares a field name with. -/
inductive HeaderName where
  | contentType | ifNoneMatch | ifModifiedSince | range | ifRange | host | contentLength
  | transferEncoding | expect | trailer | connection
  deriving DecidableEq, Repr

def HeaderName.text : HeaderName → Bytes
  | .contentType => HpServer.text "content-type"
  | .ifNoneMatch => HpServer.text "if-none-match"
  | .ifModifiedSince => HpServer.text "if-modified-since"
  | .range => HpServer.text "range"
  | .ifRange => HpServer.text "if-range"
  | .host => HpServer.text "host"
  | .contentLength => HpServer.text "content-length"
  | .transferEncoding => HpServer.text "transfer-encoding"
  | .expect => HpServer.text "expect"
  | .trailer => HpServer.text "trailer"
  | .connection => HpServer.text "connection"

/-- The order of the comparisons. -/
def headerNames : List HeaderName :=
  [.contentType, .ifNoneMatch, .ifModifiedSince, .range, .ifRange, .host, .contentLength,
    .transferEncoding, .expect, .trailer, .connection]

/-- The `if … else if` chain on the field name: the first of the names that matches. -/
def matchName (name : Bytes) : List HeaderName → Counted (Option HeaderName)
  | [] => pure none
  | candidate :: rest => do
    if ← equalsAsciiCaseInsensitive name candidate.text then pure (some candidate)
    else matchName name rest

/-- The `Content-Length` digits: the verdict and the accumulated value. The overflow test comes
before the multiplication. -/
def scanContentLength : Bytes → Nat → Counted (Bool × Nat)
  | [], value => pure (true, value)
  | c :: rest, value => do
    Counted.tick 1
    if c < 0x30 || 0x39 < c then pure (false, value)
    else
      let digit := (c - 0x30).toNat
      if value > (uint64Max - digit) / 10 then pure (false, value)
      else scanContentLength rest (value * 10 + digit)

/-- The flags of `validateTokenList`, and the member `unsupportedCoding_` it may set. -/
structure TokenFlags where
  chunked : Bool := false
  checksum : Bool := false
  trace : Bool := false
  unsupported : Bool := false
  deriving DecidableEq, Repr

/-- What `validateTokenList` does with one non-empty token: its verdict and the flags afterwards. -/
def classifyToken (trailerDeclaration : Bool) (flags : TokenFlags) (token : Bytes) :
    Counted (Bool × TokenFlags) := do
  if trailerDeclaration then
    if ← equalsAsciiCaseInsensitive token (text "x-checksum") then
      pure (!flags.checksum, { flags with checksum := true })
    else if ← equalsAsciiCaseInsensitive token (text "x-trace-id") then
      pure (!flags.trace, { flags with trace := true })
    else pure (false, flags)
  else if flags.chunked then pure (false, flags)
  else if ← equalsAsciiCaseInsensitive token (text "chunked") then
    pure (true, { flags with chunked := true })
  else pure (true, { flags with unsupported := true })

/-- The loop of `validateTokenList` over the comma-separated elements. An element of `n` bytes costs
`n + 1` turns of the index loop, the last one at its comma or at the end. -/
def scanTokenList (trailerDeclaration : Bool) : List Bytes → TokenFlags →
    Counted (Bool × TokenFlags)
  | [], flags => pure (true, flags)
  | element :: rest, flags => do
    Counted.tick (element.length + 1)
    let token ← trimHeaderWhitespace element
    if token.isEmpty then pure (false, flags)
    else if !(← scanAll isTokenCharacter token) then pure (false, flags)
    else
      let (ok, flags) ← classifyToken trailerDeclaration flags token
      if !ok then pure (false, flags) else scanTokenList trailerDeclaration rest flags

def validateTokenList (value : Bytes) (trailerDeclaration : Bool) (h : HeaderFields) :
    Counted (Bool × HeaderFields) := do
  let (ok, flags) ← scanTokenList trailerDeclaration (value.splitOn comma) {}
  pure (ok && (trailerDeclaration || flags.chunked),
    { h with unsupportedCoding := h.unsupportedCoding || flags.unsupported })

/-- The loop over the elements of a `Connection` value: the verdict and `closeRequested_`. Empty
elements are allowed. -/
def scanConnection : List Bytes → Bool → Counted (Bool × Bool)
  | [], closeRequested => pure (true, closeRequested)
  | element :: rest, closeRequested => do
    Counted.tick (element.length + 1)
    let token ← trimHeaderWhitespace element
    if !(← scanAll isTokenCharacter token) then pure (false, closeRequested)
    else if ← equalsAsciiCaseInsensitive token (text "close") then scanConnection rest true
    else scanConnection rest closeRequested

/-- A `collectStaticField` call on one of the four static fields. -/
def storeStaticField (h : HeaderFields) (field : StaticField) (value : Bytes) (merge : Bool)
    (store : StaticField → StaticRequestFields) : Bool × HeaderFields :=
  match collectStaticField h.staticFieldBytes field value merge with
  | none => (false, h)
  | some (collected, total) =>
    (true, { h with staticFields := store collected, staticFieldBytes := total })

/-- What `validateHeader` does with the trimmed value of a field outside the trailers. -/
def applyHeader (name : Option HeaderName) (value : Bytes) (nonemptyValue : Bool)
    (h : HeaderFields) : Counted (Bool × HeaderFields) :=
  match name with
  | none => pure (true, h)
  | some .contentType =>
    pure (true,
      { h with
        contentType :=
          { value := if h.contentType.present then h.contentType.value else value
            present := true
            duplicate := h.contentType.present } })
  | some .ifNoneMatch =>
    pure (storeStaticField h h.staticFields.ifNoneMatch value true
      fun field => { h.staticFields with ifNoneMatch := field })
  | some .ifModifiedSince =>
    pure (storeStaticField h h.staticFields.ifModifiedSince value false
      fun field => { h.staticFields with ifModifiedSince := field })
  | some .range =>
    pure (storeStaticField h h.staticFields.range value false
      fun field => { h.staticFields with range := field })
  | some .ifRange =>
    pure (storeStaticField h h.staticFields.ifRange value false
      fun field => { h.staticFields with ifRange := field })
  | some .host =>
    if h.hostSeen || !nonemptyValue then pure (false, h)
    else pure (true, { h with hostSeen := true })
  | some .contentLength =>
    if h.contentLengthSeen || h.transferEncodingSeen || value.isEmpty then pure (false, h)
    else do
      let (ok, total) ← scanContentLength value h.contentLength
      pure (ok, { h with contentLengthSeen := true, contentLength := total })
  | some .transferEncoding =>
    if h.transferEncodingSeen || h.contentLengthSeen then pure (false, h)
    else validateTokenList value false { h with transferEncodingSeen := true }
  | some .expect =>
    if h.expectSeen || value.isEmpty then pure (false, h)
    else do
      let isContinue ← equalsAsciiCaseInsensitive value (text "100-continue")
      pure (true, { h with expectSeen := true, expectContinue := isContinue })
  | some .trailer =>
    if h.trailerDeclarationSeen then pure (false, h)
    else validateTokenList value true { h with trailerDeclarationSeen := true }
  | some .connection => do
    let (ok, closeRequested) ← scanConnection (value.splitOn comma) h.closeRequested
    pure (ok, { h with closeRequested := closeRequested })

/-- `validateHeader`; `trailers` tells whether the parser is in the state `kTrailers`. -/
def validateHeader (line : Bytes) (trailers : Bool) (h : HeaderFields) :
    Counted (Bool × HeaderFields) := do
  if line.head? = some sp || line.head? = some htab then pure (false, h)
  else
    let colonAt := line.findIdx (· = colon)
    Counted.tick (min (colonAt + 1) line.length)
    if colonAt = 0 || colonAt = line.length then pure (false, h)
    else
      let name := line.take colonAt
      let rest := line.drop (colonAt + 1)
      if !(← scanAll isTokenCharacter name) then pure (false, h)
      else if !(← scanAll isValueByte rest) then pure (false, h)
      else
        let value ← trimHeaderWhitespace rest
        if trailers then
          if ← equalsAsciiCaseInsensitive name (text "x-checksum") then pure (true, h)
          else
            let isTrace ← equalsAsciiCaseInsensitive name (text "x-trace-id")
            pure (isTrace, h)
        else
          let known ← matchName name headerNames
          applyHeader known value (rest.any fun c => !isOws c) h

def finishRequest (f : ParserFields) : ParserFields :=
  { f with state := .complete, status := .complete }

/-- The end of the header section. Bad framing is `kError` with the status still open; then the
three refusals in the order of the source, `413`, `501`, `417`; then the state of the body. -/
def finishHeaders (f : ParserFields) : ParserFields :=
  if !f.hostSeen || (f.transferEncodingSeen && f.contentLengthSeen)
      || (f.trailerDeclarationSeen && !f.transferEncodingSeen) then
    { f with state := .error }
  else
    let status :=
      if f.contentLength > kMaxBodyBytes then .payloadTooLarge
      else if f.unsupportedCoding then .notImplemented
      else if f.expectSeen && !f.expectContinue then .expectationFailed
      else f.status
    if status ≠ .needMore then { f with state := .error, status := status }
    else if f.transferEncodingSeen then
      { f with
        state := .chunkSize
        status := if f.expectContinue then .headersComplete else .needMore }
    else if f.contentLength ≠ 0 then
      { f with
        state := .body
        status := if f.expectContinue then .headersComplete else .needMore }
    else finishRequest f

/-! ### Chunk lines -/

/-- The quoted-string loop of `validateChunkExtensions`, from after the opening quote: the rest of
the line after the closing quote. -/
def scanQuoted : Bytes → Option Bytes
  | [] => none
  | c :: rest =>
    if c = quote then some rest
    else if c = backslash then
      match rest with
      | [] => none
      | escaped :: rest =>
        if escaped = htab || (0x20 ≤ escaped && escaped ≠ del) then scanQuoted rest else none
    else if c = htab || c = sp || c = 0x21 || (0x23 ≤ c && c ≠ del) then scanQuoted rest
    else none

/-- The outer loop of `validateChunkExtensions` on the rest of the line. Every turn takes at least
the semicolon, so the length of the rest is enough fuel. -/
def scanExtensions : Nat → Bytes → Bool
  | _, [] => true
  | 0, _ :: _ => false
  | fuel + 1, first :: others =>
    match (first :: others).dropWhile isOws with
    | [] => false
    | c :: rest =>
      if c ≠ semicolon then false
      else
        let named := rest.dropWhile isOws
        let afterName := named.dropWhile isTokenCharacter
        if afterName.length = named.length then false
        else
          match afterName.dropWhile isOws with
          | [] => afterName.isEmpty
          | c :: rest =>
            -- `continue`: the next turn starts at this byte
            if c ≠ equals then scanExtensions fuel (c :: rest)
            else
              match rest.dropWhile isOws with
              | [] => false
              | c :: rest =>
                if c = quote then
                  match scanQuoted rest with
                  | none => false
                  | some rest => scanExtensions fuel rest
                else
                  let afterValue := (c :: rest).dropWhile isTokenCharacter
                  if afterValue.length = (c :: rest).length then false
                  else scanExtensions fuel afterValue

def validateChunkExtensions (line : Bytes) (position : Nat) : Bool :=
  scanExtensions (line.drop position).length (line.drop position)

def hexDigit (c : UInt8) : Option Nat :=
  if 0x30 ≤ c && c ≤ 0x39 then some (c - 0x30).toNat
  else if 0x61 ≤ c && c ≤ 0x66 then some ((c - 0x61).toNat + 10)
  else if 0x41 ≤ c && c ≤ 0x46 then some ((c - 0x41).toNat + 10)
  else none

/-- The size digits: the value and the number of digits, `none` where 64 bits overflow. -/
def scanHex : Bytes → Nat → Nat → Option (Nat × Nat)
  | [], size, position => some (size, position)
  | c :: rest, size, position =>
    match hexDigit c with
    | none => some (size, position)
    | some digit =>
      if size > (uint64Max - digit) / 16 then none
      else scanHex rest (size * 16 + digit) (position + 1)

/-- `validateChunkSize`, with `kError` for its `return false` as its only caller has it. -/
def validateChunkSize (line : Bytes) (f : ParserFields) : ParserFields :=
  let f := { f with scanSteps := f.scanSteps + line.length }
  match scanHex line 0 0 with
  | none => { f with state := .error }
  | some (size, position) =>
    if position = 0 || !validateChunkExtensions line position then { f with state := .error }
    else if size > kMaxBodyBytes - f.body.length then
      { f with status := .payloadTooLarge, state := .error }
    else
      { f with
        chunkRemaining := size
        state := if size = 0 then .trailers else .chunkData }

/-! ### The byte loop -/

namespace RequestParser

/-- The line being assembled. -/
def line (p : RequestParser) : Bytes := slice p.storage p.lineStart p.lineSize

/-- `storage_[lineStart_ + lineSize_++] = c`. -/
def store (p : RequestParser) (c : UInt8) : RequestParser :=
  { p with
    storage := Function.update p.storage (p.lineStart + p.lineSize) c
    lineSize := p.lineSize + 1 }

/-- A change that does not touch the array. -/
def onFields (p : RequestParser) (change : ParserFields → ParserFields) : RequestParser :=
  { p with toParserFields := change p.toParserFields }

end RequestParser

/-- A header or trailer line: the fields it was collected into, and `kError` where it is refused. -/
def acceptHeader (line : Bytes) (f : ParserFields) : ParserFields :=
  let checked := validateHeader line (f.state = .trailers) f.toHeaderFields
  { f with
    toHeaderFields := checked.value.2
    scanSteps := f.scanSteps + checked.steps
    state := if checked.value.1 then f.state else .error }

/-- The request line: where its parts are, or `kError`. -/
def acceptRequestLine (line : Bytes) (f : ParserFields) : ParserFields :=
  match (validateRequestLine line).value with
  | none => { f with scanSteps := f.scanSteps + (validateRequestLine line).steps, state := .error }
  | some cut =>
    { f with
      scanSteps := f.scanSteps + (validateRequestLine line).steps
      methodSize := cut.methodSize
      targetStart := cut.targetStart
      targetSize := cut.targetSize
      headRequest := cut.headRequest
      lineStart := f.lineSize
      state := .headers
      lineSize := 0 }

/-- `finishLine`, on the request line as read from the start of the array and on the line at
`lineStart_`. -/
def finishLineFields (requestLine line : Bytes) (f : ParserFields) : ParserFields :=
  if f.state = .requestLine then acceptRequestLine requestLine f
  else if f.lineSize = 0 then { finishHeaders f with lineSize := 0 }
  else { acceptHeader line f with lineSize := 0 }

def finishLine (p : RequestParser) : RequestParser :=
  p.onFields (finishLineFields (slice p.storage 0 p.lineSize) p.line)

/-- The end of a size line or of a trailer line in `feedChunkMetadata`. -/
def finishMetadataLine (line : Bytes) (f : ParserFields) : ParserFields :=
  if f.state = .chunkSize then { validateChunkSize line f with chunkLineBytes := 0, lineSize := 0 }
  else if f.lineSize = 0 then { finishRequest f with lineSize := 0 }
  else { acceptHeader line f with lineSize := 0 }

/-- The byte counters at the head of `feedChunkMetadata`. -/
def countMetadata (f : ParserFields) : ParserFields :=
  { f with
    metadataBytes := f.metadataBytes + 1
    trailerBytes := if f.state = .trailers then f.trailerBytes + 1 else f.trailerBytes
    chunkLineBytes := if f.state = .chunkSize then f.chunkLineBytes + 1 else f.chunkLineBytes }

def metadataOverflow (f : ParserFields) : Bool :=
  f.metadataBytes > kMaxChunkMetadataBytes || f.trailerBytes > kMaxTrailerBytes
    || f.chunkLineBytes > kMaxChunkLineBytes

/-- The byte due after chunk data. -/
def expectedCrlfByte (f : ParserFields) : UInt8 := if f.dataCrlfBytes = 0 then cr else lf

/-- The two bytes after chunk data. -/
def feedDataCrlf (byte : UInt8) (f : ParserFields) : ParserFields :=
  if byte ≠ expectedCrlfByte f then { f with state := .error }
  else if f.dataCrlfBytes + 1 = 2 then
    { f with dataCrlfBytes := 0, chunkLineBytes := 0, state := .chunkSize }
  else { f with dataCrlfBytes := f.dataCrlfBytes + 1 }

def feedChunkMetadata (p : RequestParser) (byte : UInt8) : RequestParser :=
  let p := p.onFields countMetadata
  if metadataOverflow p.toParserFields then { p with state := .error }
  else if p.state = .chunkDataCrlf then p.onFields (feedDataCrlf byte)
  else if p.pendingCr then
    let p := { p with pendingCr := false }
    if byte ≠ lf then { p with state := .error } else p.onFields (finishMetadataLine p.line)
  else if byte = cr then { p with pendingCr := true }
  else if byte = lf || byte = nul || p.lineStart + p.lineSize = kMaxHeaderBytes then
    { p with state := .error }
  else p.store byte

/-- One turn of the `feedRequestBytes` loop in the states `kChunkSize`, `kChunkDataCrlf` and
`kTrailers`. -/
def feedMetadataByte (p : RequestParser) (byte : UInt8) : RequestParser :=
  let p := { p with requestBytes := p.requestBytes + 1, scanSteps := p.scanSteps + 1 }
  let p := feedChunkMetadata p byte
  if p.state = .error && p.status = .needMore then { p with status := .badRequest } else p

/-- The byte of a header section, before the size limit is looked at. -/
def takeHeaderByte (p : RequestParser) (c : UInt8) : RequestParser :=
  if p.pendingCr then
    let p := { p with pendingCr := false }
    if c ≠ lf then { p with state := .error } else finishLine p
  else if c = cr then { p with pendingCr := true }
  else if c = lf || c = nul then { p with state := .error }
  else if p.state = .requestLine && p.lineSize = kMaxRequestLineBytes then
    { p with state := .error }
  else
    let p := p.store c
    { p with peakBuffered := max p.peakBuffered p.bufferedBytes }

/-- The checks after a header byte: the size limit, and a status for a new `kError`. -/
def checkHeaderLimit (f : ParserFields) : ParserFields :=
  let state :=
    if f.headerBytes = kMaxHeaderBytes && (f.state = .requestLine || f.state = .headers) then .error
    else f.state
  { f with
    state := state
    status :=
      if state = .error && (f.status = .needMore || f.status = .headersComplete) then .badRequest
      else f.status }

/-- One turn of the loop in the states `kRequestLine` and `kHeaders`. -/
def feedHeaderByte (p : RequestParser) (c : UInt8) : RequestParser :=
  let p :=
    { p with
      headerBytes := p.headerBytes + 1
      requestBytes := p.requestBytes + 1
      scanSteps := p.scanSteps + 1 }
  (takeHeaderByte p c).onFields checkHeaderLimit

/-- `appendBody`, and the number of bytes it takes. -/
def appendBody (p : RequestParser) (bytes : Bytes) : RequestParser × Nat :=
  let count := min bytes.length (p.contentLength - p.body.length)
  let p :=
    { p with
      body := p.body ++ bytes.take count
      requestBytes := p.requestBytes + count
      scanSteps := p.scanSteps + count }
  (if p.body.length = p.contentLength then p.onFields finishRequest else p, count)

/-- The turn of the loop in the state `kChunkData`, and the number of bytes it takes. -/
def appendChunk (p : RequestParser) (bytes : Bytes) : RequestParser × Nat :=
  let count := min p.chunkRemaining bytes.length
  let p :=
    { p with
      body := p.body ++ bytes.take count
      chunkRemaining := p.chunkRemaining - count
      requestBytes := p.requestBytes + count
      scanSteps := p.scanSteps + count }
  (if p.chunkRemaining = 0 then { p with state := .chunkDataCrlf } else p, count)

/-- The loop of `feedRequestBytes` on the bytes not accepted yet: the parser afterwards and the
bytes left. Every turn of a reachable parser takes a byte, so the number of bytes is enough fuel
(`feedLoop_eq_byteLoop`). -/
def feedLoop : Nat → RequestParser → Bytes → RequestParser × Bytes
  | _, p, [] => (p, [])
  | 0, p, c :: rest => (p, c :: rest)
  | fuel + 1, p, c :: rest =>
    match p.state with
    | .complete | .error => (p, c :: rest)
    | .body =>
      let (next, count) := appendBody p (c :: rest)
      feedLoop fuel next ((c :: rest).drop count)
    | .chunkData =>
      let (next, count) := appendChunk p (c :: rest)
      feedLoop fuel next ((c :: rest).drop count)
    | .chunkSize | .chunkDataCrlf | .trailers => feedLoop fuel (feedMetadataByte p c) rest
    | .requestLine | .headers =>
      let next := feedHeaderByte p c
      if next.status = .headersComplete then (next, rest) else feedLoop fuel next rest

def buildFeedResult (p : RequestParser) (accepted : Nat) : FeedResult :=
  let method := slice p.storage 0 p.methodSize
  let target := slice p.storage p.targetStart p.targetSize
  { status := p.status
    acceptedBytes := accepted
    requestBytes := p.requestBytes
    request :=
      if p.state = .complete then
        { closeRequested := p.closeRequested
          body := p.body
          staticFields := p.staticFields
          contentType := p.contentType
          method := method
          target := target }
      else {}
    head :=
      if p.status = .headersComplete then some ⟨method, target, p.closeRequested⟩ else none }

/-- A `kHeadersComplete` status is reported by one call only. -/
def clearHeadersComplete (f : ParserFields) : ParserFields :=
  if f.status = .headersComplete then { f with status := .needMore } else f

def feedRequestBytes (p : RequestParser) (bytes : Bytes) : RequestParser × FeedResult :=
  let (next, rest) := feedLoop bytes.length (p.onFields clearHeadersComplete) bytes
  (next, buildFeedResult next (bytes.length - rest.length))

/-- The members in the order of the source; `storage_` is not among them. -/
def resetRequestParser (p : RequestParser) : RequestParser :=
  { p with
    state := .requestLine
    status := .needMore
    transferEncodingSeen := false
    unsupportedCoding := false
    expectSeen := false
    expectContinue := false
    trailerDeclarationSeen := false
    chunkRemaining := 0
    metadataBytes := 0
    trailerBytes := 0
    chunkLineBytes := 0
    dataCrlfBytes := 0
    headRequest := false
    pendingCr := false
    hostSeen := false
    contentLengthSeen := false
    closeRequested := false
    lineStart := 0
    lineSize := 0
    requestBytes := 0
    headerBytes := 0
    contentLength := 0
    body := []
    staticFields := {}
    contentType := {}
    staticFieldBytes := 0
    methodSize := 0
    targetStart := 0
    targetSize := 0
    scanSteps := 0
    peakBuffered := 0 }

def parseRequest (bytes : Bytes) : ParseResult :=
  let (parser, parsed) := feedRequestBytes {} bytes
  let parsed :=
    if parsed.status = .headersComplete then
      (feedRequestBytes parser (bytes.drop parsed.acceptedBytes)).2
    else parsed
  { status := parsed.status
    request := parsed.request
    consumedBytes := if parsed.status = .complete then parsed.requestBytes else 0 }

end HpServer.Http
