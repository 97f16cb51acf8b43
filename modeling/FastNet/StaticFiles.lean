import FastNet.ServerConnection

/-!
The static files of `HttpServer`: from the path of a request to a file below the
directory of a registered path, and from the file to a response. The file system is a
parameter, and so is what its calls fail with.
-/

namespace FastNet.HttpServer

open Text Ctype Numeral HttpParser

def normalizePath (path : Bytes) : Bytes :=
  if path = ascii "*" then ascii "*" else if path = [] then [47] else withSlashes path

/-- What the server asks of the file system and of the clock. A call with an
`std::error_code` fails with `none`; `std::filesystem::exists` and `is_regular_file`
throw, which is `none` as well. -/
structure FileSystem where
  weaklyCanonical : Bytes → Option Bytes
  isRegularFile : Bytes → Option Bool
  lastWriteTime : Bytes → Option Int
  fileSize : Bytes → Option Nat
  content : Bytes → Option Bytes
  formatFileTime : Int → Bytes

/-- `directory / name` for paths of the file system. -/
def joinPath (directory name : Bytes) : Bytes :=
  if name.head? = some 47 then name
  else if directory = [] ∨ directory.getLast? = some 47 then directory ++ name
  else directory ++ [47] ++ name

/-- The elements over which a path of the file system iterates: its root, its names, and
an empty element behind a slash at its end. -/
def components (path : Bytes) : List Bytes :=
  let names := (path.splitOn 47).filter (· ≠ [])
  (if path.head? = some 47 then [[47]] else []) ++ names ++
    (if names ≠ [] ∧ path.getLast? = some 47 then [[]] else [])

/-- The loop that walks along both paths: what is left of the base when they part. -/
def leftOfBase : List Bytes → List Bytes → List Bytes
  | [], _ => []
  | base, [] => base
  | b :: base, p :: path => if b = p then leftOfBase base path else b :: base

structure StaticFileCacheEntry where
  size : Nat
  lastWriteTime : Int
  contentType : Bytes
  etag : Bytes
  lastModified : Bytes
  body : Bytes

structure StaticFileHandlerBinding where
  pathPrefix : Bytes
  directory : Bytes

def refuse (response : HttpResponse) (statusCode : Int) (statusMessage body : Bytes) : HttpResponse :=
  { response with
    statusCode, statusMessage, body
    headers := response.headers.insert (ascii "Content-Type") (ascii "text/plain; charset=utf-8") }

def relativePath (normalizedPath pathPrefix : Bytes) : Bytes :=
  let relative := normalizedPath.drop pathPrefix.length
  let relative := if relative = [] ∨ relative = [47] then ascii "/index.html" else relative
  if relative.head? = some 47 then relative else 47 :: relative

def requestedPath (binding : StaticFileHandlerBinding) (request : HttpRequest) : Bytes :=
  joinPath binding.directory
    ((relativePath (normalizePath request.path) binding.pathPrefix).drop 1)

/-- The first part of `handleStaticFileRequest`, up to the last check: the canonical path
of a regular file, or the response that refuses it. The outer `none` is an exception. -/
def locateStaticFile (files : FileSystem) (binding : StaticFileHandlerBinding) (request : HttpRequest)
    (response : HttpResponse) : Option (Except HttpResponse Bytes) :=
  let notFound := refuse response 404 (ascii "Not Found") (ascii "404 Not Found")
  match files.weaklyCanonical binding.directory with
  | none => some (.error (refuse response 500 (ascii "Internal Server Error")
      (ascii "Static file root is invalid")))
  | some canonicalBase =>
    match files.weaklyCanonical (requestedPath binding request) with
    | none => some (.error notFound)
    | some canonicalPath =>
      if canonicalPath = [] then some (.error notFound)
      else if leftOfBase (components canonicalBase) (components canonicalPath) ≠ [] then
        some (.error (refuse response 403 (ascii "Forbidden") (ascii "403 Forbidden")))
      else
        (files.isRegularFile canonicalPath).map fun regular =>
          if regular then .ok canonicalPath else .error notFound

def extension (path : Bytes) : Bytes :=
  let filename := path.rtakeWhile (· ≠ 47)
  if filename = ascii "." ∨ filename = ascii ".." ∨ 46 ∉ filename.tail then []
  else 46 :: filename.rtakeWhile (· ≠ 46)

def contentTypes : List (Bytes × Bytes) :=
  [(ascii ".avif",ascii "image/avif"),(ascii ".css",ascii "text/css"),
    (ascii ".csv",ascii "text/csv"),(ascii ".ico",ascii "image/x-icon"),
    (ascii ".gif",ascii "image/gif"),(ascii ".htm",ascii "text/html; charset=utf-8"),
    (ascii ".html",ascii "text/html; charset=utf-8"),(ascii ".jpeg",ascii "image/jpeg"),
    (ascii ".jpg",ascii "image/jpeg"),(ascii ".js",ascii "application/javascript"),
    (ascii ".json",ascii "application/json"),(ascii ".map",ascii "application/json"),
    (ascii ".mjs",ascii "application/javascript"),(ascii ".pdf",ascii "application/pdf"),
    (ascii ".png",ascii "image/png"),(ascii ".svg",ascii "image/svg+xml"),
    (ascii ".txt",ascii "text/plain; charset=utf-8"),(ascii ".wasm",ascii "application/wasm"),
    (ascii ".webp",ascii "image/webp"),(ascii ".woff",ascii "font/woff"),
    (ascii ".woff2",ascii "font/woff2"),(ascii ".xml",ascii "application/xml")]

def getContentType (extension : Bytes) : Bytes :=
  (contentTypes.lookup extension).getD (ascii "application/octet-stream")

def buildStaticFileEtag (fileSize : Nat) (lastWriteTime : Int) : Bytes :=
  [34] ++ toChars 10 fileSize ++ [45] ++ toCharsSigned lastWriteTime ++ [34]

def isNotModified (request : HttpRequest) (etag lastModified : Bytes) : Bool :=
  let ifNoneMatch := headerValueCaseInsensitiveView request.headers (ascii "If-None-Match")
  let ifModifiedSince := headerValueCaseInsensitiveView request.headers (ascii "If-Modified-Since")
  let listed := (ifNoneMatch.splitOn 44).any fun candidate =>
    let token := Text.trim isSpace candidate
    token = ascii "*" || token = etag || token = ascii "W/" ++ etag
  (ifNoneMatch ≠ [] && listed) || (ifModifiedSince ≠ [] && ifModifiedSince = lastModified)

/-- The range that `bytes=spec` asks for, with its first byte and its length. -/
def parseRangeSpec (spec : Bytes) (fileSize : Nat) : Option (Nat × Nat) :=
  if 44 ∈ spec then none
  else
    match find [45] spec 0 with
    | none => none
    | some 0 =>
      match stoull 10 (spec.drop 1) with
      | .error _ => none
      | .ok suffixLength =>
        if suffixLength = 0 then none
        else some (fileSize-min suffixLength fileSize,min suffixLength fileSize)
    | some dashPos =>
      match stoull 10 (spec.take dashPos),
          if dashPos+1 < spec.length then stoull 10 (spec.drop (dashPos+1)) else .ok (fileSize-1) with
      | .ok start, .ok stop =>
        if fileSize ≤ start ∨ stop < start then none
        else some (start,min stop (fileSize-1)-start+1)
      | _, _ => none

def parseRangeHeader (rangeHeader : Bytes) (fileSize : Nat) : Option (Nat × Nat) :=
  let rangeHeader := Text.trim isSpace rangeHeader
  if fileSize = 0 then none
  else if rangeHeader.length < 6 ∨ !equalsAsciiIgnoreCase (rangeHeader.take 6) (ascii "bytes=") then none
  else parseRangeSpec (rangeHeader.drop 6) fileSize

/-- `readFileSegment`. A segment that is not there as a whole is not read. -/
def readFileSegment (files : FileSystem) (path : Bytes) (offset length : Nat) : Option Bytes :=
  if 2^63 ≤ length then none
  else
    (files.content path).bind fun content =>
      let data := (content.drop offset).take length
      if data.length = length then some data else none

/-- `loadStaticFile`: the body of a small file, and the cache behind it. -/
def loadStaticFile (files : FileSystem) (staticFileCacheLimit : Nat) (cache : ByteMap StaticFileCacheEntry)
    (canonicalPath : Bytes) (fileSize : Nat) (lastWriteTime : Int) (contentType etag lastModified : Bytes) :
    Option Bytes × ByteMap StaticFileCacheEntry :=
  if fileSize ≤ staticFileCacheLimit then
    let cached := cache[canonicalPath]?.filter
      (fun entry => entry.size = fileSize && entry.lastWriteTime = lastWriteTime)
    match cached with
    | some entry => (some entry.body,cache)
    | none =>
      match readFileSegment files canonicalPath 0 fileSize with
      | none => (none,cache)
      | some body =>
        (some body,cache.insert canonicalPath
          ⟨fileSize,lastWriteTime,contentType,etag,lastModified,body⟩)
  else (readFileSegment files canonicalPath 0 fileSize,cache)

def withFileBody (response : HttpResponse) (filePath : Bytes) (fileOffset fileLength : Nat) : HttpResponse :=
  { response with hasFileBody := true, filePath, fileOffset, fileLength, body := [] }

def failToRead (response : HttpResponse) : HttpResponse :=
  let response := refuse response 500 (ascii "Internal Server Error") (ascii "Failed to read file")
  { response with
    headers := response.headers.insert (ascii "Content-Length") (toChars 10 response.body.length) }

def serveRange (files : FileSystem) (staticFileCacheLimit : Nat) (request : HttpRequest)
    (response : HttpResponse) (canonicalPath : Bytes) (fileSize : Nat) :
    Option (Nat × Nat) → HttpResponse
  | none =>
    { response with
      statusCode := 416, statusMessage := ascii "Range Not Satisfiable", body := []
      headers := (response.headers.insert (ascii "Content-Range")
        (ascii "bytes */" ++ toChars 10 fileSize)).insert (ascii "Content-Length") (ascii "0") }
  | some (offset,length) =>
    let headers := (response.headers.insert (ascii "Content-Range")
      (ascii "bytes " ++ toChars 10 offset ++ [45] ++ toChars 10 (offset+length-1) ++
        [47] ++ toChars 10 fileSize)).insert (ascii "Content-Length") (toChars 10 length)
    let response := { response with statusCode := 206, statusMessage := ascii "Partial Content", headers }
    if request.method = .head then response
    else if staticFileCacheLimit < length then withFileBody response canonicalPath offset length
    else
      match readFileSegment files canonicalPath offset length with
      | none =>
        let failed := failToRead response
        { failed with headers := failed.headers.erase (ascii "Content-Range") }
      | some fileData => { response with body := fileData }

/-- The second part of `handleStaticFileRequest`: the response with the file, and the
cache behind it. -/
def serveStaticFile (files : FileSystem) (staticFileCacheLimit : Nat) (cache : ByteMap StaticFileCacheEntry)
    (request : HttpRequest) (response : HttpResponse) (canonicalPath : Bytes) :
    HttpResponse × ByteMap StaticFileCacheEntry :=
  let uninspected := refuse response 500 (ascii "Internal Server Error") (ascii "Failed to inspect file")
  match files.lastWriteTime canonicalPath, files.fileSize canonicalPath with
  | some lastWriteTime, some fileSize =>
    let contentType := getContentType (extension canonicalPath)
    let etag := buildStaticFileEtag fileSize lastWriteTime
    let lastModified := files.formatFileTime lastWriteTime
    let headers := (((response.headers.insert (ascii "Content-Type") contentType).insert
      (ascii "ETag") etag).insert (ascii "Last-Modified") lastModified).insert
      (ascii "Accept-Ranges") (ascii "bytes")
    let response := { response with headers }
    let rangeHeader := headerValueCaseInsensitiveView request.headers (ascii "Range")
    let hasRangeRequest := rangeHeader ≠ [] ∧ (request.method = .get ∨ request.method = .head)
    if hasRangeRequest then
      (serveRange files staticFileCacheLimit request response canonicalPath fileSize
        (parseRangeHeader rangeHeader fileSize),cache)
    else if isNotModified request etag lastModified then
      ({ response with
        statusCode := 304, statusMessage := ascii "Not Modified", body := []
        headers := headers.insert (ascii "Content-Length") (ascii "0") },cache)
    else
      let response := { response with
        statusCode := 200, statusMessage := ascii "OK"
        headers := headers.insert (ascii "Content-Length") (toChars 10 fileSize) }
      if request.method = .head then ({ response with body := [] },cache)
      else if staticFileCacheLimit < fileSize then (withFileBody response canonicalPath 0 fileSize,cache)
      else
        match loadStaticFile files staticFileCacheLimit cache canonicalPath fileSize lastWriteTime
            contentType etag lastModified with
        | (none,cache) => (failToRead response,cache)
        | (some fileData,cache) => ({ response with body := fileData },cache)
  | _, _ => (uninspected,cache)

structure Reply where
  response : HttpResponse
  file : Option Bytes := none
  cache : ByteMap StaticFileCacheEntry

/-- `handleStaticFileRequest` for a registered path; `none` is an exception. -/
def handleStaticFileRequest (files : FileSystem) (staticFileCacheLimit : Nat)
    (cache : ByteMap StaticFileCacheEntry) (binding : StaticFileHandlerBinding) (request : HttpRequest)
    (response : HttpResponse) : Option Reply :=
  (locateStaticFile files binding request response).map fun
    | .error refused => { response := refused, cache }
    | .ok canonicalPath =>
      let (response,cache) :=
        serveStaticFile files staticFileCacheLimit cache request response canonicalPath
      { response, file := some canonicalPath, cache }

theorem leftOfBase_eq_nil_iff {base path : List Bytes} : leftOfBase base path = [] ↔ base <+: path := by
  induction base generalizing path with
  | nil => simp [leftOfBase]
  | cons b base ih =>
    cases path with
    | nil => simp [leftOfBase]
    | cons p path =>
      rw [List.cons_prefix_cons,leftOfBase]
      split
      · rename_i heq
        rw [ih]
        simp [heq]
      · rename_i hne
        simp [hne]

variable {files files' : FileSystem} {binding : StaticFileHandlerBinding} {path : Bytes}

theorem locateStaticFile_ok {request : HttpRequest} {response : HttpResponse} {file : Bytes}
    (h : locateStaticFile files binding request response = some (.ok file)) :
    ∃ base, files.weaklyCanonical binding.directory = some base ∧
      files.weaklyCanonical (requestedPath binding request) = some file ∧
      components base <+: components file := by
  unfold locateStaticFile at h
  cases hbase : files.weaklyCanonical binding.directory with
  | none => simp [hbase] at h
  | some base =>
    cases hpath : files.weaklyCanonical (requestedPath binding request) with
    | none => simp [hbase,hpath] at h
    | some canonicalPath =>
      simp only [hbase,hpath] at h
      split at h
      · cases h
      · split at h
        · cases h
        · rename_i hleft
          rw [not_not] at hleft
          obtain ⟨regular,-,hreg⟩ := Option.map_eq_some_iff.mp h
          cases regular with
          | false => cases hreg
          | true =>
            cases hreg
            exact ⟨base,rfl,rfl,leftOfBase_eq_nil_iff.mp hleft⟩

/-- Two file systems have the same names, and the same files below a directory. -/
structure SameBelow (files files' : FileSystem) (directory : Bytes) : Prop where
  weaklyCanonical : files'.weaklyCanonical = files.weaklyCanonical
  formatFileTime : files'.formatFileTime = files.formatFileTime
  below : ∀ base file, files.weaklyCanonical directory = some base → components base <+: components file →
    files'.isRegularFile file = files.isRegularFile file ∧
    files'.lastWriteTime file = files.lastWriteTime file ∧
    files'.fileSize file = files.fileSize file ∧ files'.content file = files.content file

theorem locateStaticFile_congr
    (h : SameBelow files files' binding.directory) (request : HttpRequest) (response : HttpResponse) :
    locateStaticFile files' binding request response = locateStaticFile files binding request response := by
  unfold locateStaticFile
  rw [h.weaklyCanonical]
  cases hbase : files.weaklyCanonical binding.directory with
  | none => rfl
  | some base =>
    cases hpath : files.weaklyCanonical (requestedPath binding request) with
    | none => rfl
    | some canonicalPath =>
      simp only
      split
      · rfl
      · split
        · rfl
        · rename_i hleft
          rw [not_not,leftOfBase_eq_nil_iff] at hleft
          rw [(h.below base canonicalPath hbase hleft).1]

theorem readFileSegment_congr (h : files'.content path = files.content path) (offset length : Nat) :
    readFileSegment files' path offset length = readFileSegment files path offset length := by
  simp only [readFileSegment,h]

theorem serveStaticFile_congr (hfor : files'.formatFileTime = files.formatFileTime)
    (htime : files'.lastWriteTime path = files.lastWriteTime path)
    (hsize : files'.fileSize path = files.fileSize path) (hcon : files'.content path = files.content path)
    (limit : Nat) (cache : ByteMap StaticFileCacheEntry) (request : HttpRequest) (response : HttpResponse) :
    serveStaticFile files' limit cache request response path =
      serveStaticFile files limit cache request response path := by
  have hrange (response : HttpResponse) (fileSize : Nat) (range : Option (Nat × Nat)) :
      serveRange files' limit request response path fileSize range =
        serveRange files limit request response path fileSize range := by
    cases range with
    | none => rfl
    | some range => simp only [serveRange,readFileSegment_congr hcon]
  simp only [serveStaticFile,htime,hsize,hfor,loadStaticFile,readFileSegment_congr hcon,hrange]

theorem handleStaticFileRequest_congr
    (h : SameBelow files files' binding.directory) (limit : Nat) (cache : ByteMap StaticFileCacheEntry)
    (request : HttpRequest) (response : HttpResponse) :
    handleStaticFileRequest files' limit cache binding request response =
      handleStaticFileRequest files limit cache binding request response := by
  unfold handleStaticFileRequest
  rw [locateStaticFile_congr h]
  cases hloc : locateStaticFile files binding request response with
  | none => rfl
  | some located =>
    cases located with
    | error refused => rfl
    | ok file =>
      obtain ⟨base,hbase,-,hbelow⟩ := locateStaticFile_ok hloc
      obtain ⟨-,htime,hsize,hcon⟩ := h.below base file hbase hbelow
      simp only [Option.map_some,serveStaticFile_congr h.formatFileTime htime hsize hcon]

end FastNet.HttpServer
