import FastNet.BareHead
import FastNet.WebSocketClient

/-!
The opening handshake between the two ends: the request of the client is accepted by the
server, the response of the server by the client, and both record the same subprotocol.
-/

namespace FastNet

open Text Ctype Numeral HttpParser OffsetBuffer WebSocketProtocol Machine

section Base64

theorem base64Encode_solid (data : Bytes) : Address.Solid (base64Encode data) := by
  have hdigits : ∀ c ∈ kBase64Alphabet, isSpace c = false := by decide +kernel
  intro c hc
  rcases (base64Encode_quartets data).1.letters.2 c hc with rfl | hdigit
  · rfl
  · exact hdigits c hdigit

theorem base64Encode_ne_nil {data : Bytes} (h : data ≠ []) : base64Encode data ≠ [] := by
  fun_cases base64Encode data with
  | case1 => exact absurd rfl h
  | case2 => simp
  | case3 => simp
  | case4 => simp

end Base64

variable {token : Bytes}

section Subprotocols

variable {protocols : List Bytes}

def Tokens (protocols : List Bytes) : Prop := ∀ p ∈ protocols, isValidHeaderName p = true

theorem token_solid (h : isValidHeaderName token = true) : Address.Solid token :=
  fun c hc => isTokenCharacter_not_space ((isValidHeaderName_spec h).2 c hc)

theorem token_no_comma (h : isValidHeaderName token = true) : 44 ∉ token :=
  fun hc => absurd ((isValidHeaderName_spec h).2 44 hc) (by decide)

def joined : List Bytes → Bytes
  | [] => []
  | p :: ps => p ++ ps.flatMap (fun q => ascii ", " ++ q)

theorem joinSubprotocols_eq (h : Tokens protocols) : WebSocketClient.joinSubprotocols protocols = joined protocols := by
  have hfold (ps : List Bytes) (hps : Tokens ps) (value : Bytes) (hvalue : value ≠ []) :
      ps.foldl (fun value protocol => if protocol = [] then value
        else if value = [] then protocol else value ++ ascii ", " ++ protocol) value =
        value ++ ps.flatMap (fun q => ascii ", " ++ q) := by
    induction ps generalizing value with
    | nil => simp
    | cons p ps ih =>
      have hp := (isValidHeaderName_spec (hps p (by simp))).1
      rw [List.foldl_cons,if_neg hp,if_neg hvalue,ih (fun q hq => hps q (List.mem_cons_of_mem _ hq)) _ (by simp [hp])]
      simp
  cases protocols with
  | nil => rfl
  | cons p ps =>
    have hp := (isValidHeaderName_spec (h p (by simp))).1
    rw [WebSocketClient.joinSubprotocols,List.foldl_cons,if_neg hp,if_pos rfl]
    exact hfold ps (fun q hq => h q (List.mem_cons_of_mem _ hq)) p hp

theorem joined_eq_intercalate (p : Bytes) (ps : List Bytes) :
    joined (p :: ps) = [44].intercalate (p :: ps.map (32 :: ·)) := by
  have htail (ps : List Bytes) (p : Bytes) : [44].intercalate (p :: ps.map (32 :: ·)) =
      p ++ ps.flatMap (fun q => ascii ", " ++ q) := by
    induction ps generalizing p with
    | nil => simp
    | cons q ps ih =>
      rw [List.map_cons,List.intercalate_cons_of_ne_nil (by simp),ih]
      simp [ascii]
  exact (htail ps p).symm

theorem trim_token (h : isValidHeaderName token = true) : trim token = token :=
  HttpClient.trim_solid (token_solid h)

theorem splitSubprotocols_join (h : Tokens protocols) :
    WebSocketServer.splitSubprotocols (WebSocketClient.joinSubprotocols protocols) = protocols := by
  rw [joinSubprotocols_eq h,WebSocketServer.splitSubprotocols]
  cases protocols with
  | nil => rfl
  | cons p ps =>
    have hparts : ∀ part ∈ p :: ps.map (32 :: ·), 44 ∉ part := by
      intro part hpart
      rcases List.mem_cons.mp hpart with rfl | hpart
      · exact token_no_comma (h part (by simp))
      · obtain ⟨q,hq,rfl⟩ := List.mem_map.mp hpart
        simpa using token_no_comma (h q (List.mem_cons_of_mem _ hq))
    have hspac : (ps.map (32 :: ·)).map HttpParser.trim = ps := by
      rw [List.map_map]
      refine (List.map_congr_left (fun q hq => ?_)).trans (List.map_id ps)
      rw [Function.comp_apply,HttpParser.trim,trim_cons_of_pos _ (by decide)]
      exact trim_token (h q (List.mem_cons_of_mem _ hq))
    rw [joined_eq_intercalate,List.splitOn_intercalate 44 hparts (by simp),List.map_cons,hspac,
      trim_token (h p (by simp)),List.filter_eq_self]
    intro q hq
    simpa using (isValidHeaderName_spec (h q hq)).1

end Subprotocols

section Lookup

variable {named others : List (Bytes × Bytes)} {headers : ViewMap}

theorem lookup_named (h : Reads headers (fieldMap (named ++ others) ∅))
    (hnodup : ((named.map Prod.fst).map (fun name => name.map toLower)).Nodup) {name value : Bytes}
    (hmem : (name,value) ∈ named)
    (hoth : ∀ f ∈ others, caseInsensitiveCompare f.1 name = false) :
    (headers.getHeader View.text name).map View.text = some value := by
  refine h.lookup (List.mem_append_left others hmem) (fun f hf hname => ?_)
  rcases List.mem_append.mp hf with hf | hf
  · rw [List.map_map] at hnodup
    refine List.inj_on_of_nodup_map hnodup hf hmem ?_
    simpa [caseInsensitiveCompare] using hname
  · rw [hoth f hf] at hname
    cases hname

def customFields (reserved : List Bytes) (headers : ByteMap Bytes) : List (Bytes × Bytes) :=
  headers.toList.filter (fun e => !reserved.any (caseInsensitiveCompare e.1))

theorem customFields_not_reserved {reserved : List Bytes} {headers : ByteMap Bytes} {name : Bytes}
    (hname : name ∈ reserved) : ∀ f ∈ customFields reserved headers, caseInsensitiveCompare f.1 name = false := by
  intro f hf
  have hnone := (List.mem_filter.mp hf).2
  simp only [Bool.not_eq_true',List.any_eq_false,Bool.not_eq_true] at hnone
  exact hnone name hname

theorem flatMap_customFields (reserved : List Bytes) (headers : ByteMap Bytes) :
    headers.toList.flatMap (fun e =>
      if reserved.any (caseInsensitiveCompare e.1) then [] else appendHeaderLine e.1 e.2) =
      (customFields reserved headers).flatMap (fun f => appendHeaderLine f.1 f.2) := by
  have hfil (drops : Bytes → Bool) (es : List (Bytes × Bytes)) :
      es.flatMap (fun e => if drops e.1 then [] else appendHeaderLine e.1 e.2) =
        (es.filter (fun e => !drops e.1)).flatMap (fun f => appendHeaderLine f.1 f.2) := by
    induction es with
    | nil => rfl
    | cons e es ih => cases hdrops : drops e.1 <;> simp [hdrops,ih]
  exact hfil (fun name => reserved.any (caseInsensitiveCompare name)) headers.toList

def protocolField (value : Bytes) : List (Bytes × Bytes) :=
  if value = [] then [] else [(ascii "Sec-WebSocket-Protocol",value)]

theorem protocolField_name {value : Bytes} : ∀ f ∈ protocolField value, f.1 = ascii "Sec-WebSocket-Protocol" := by
  intro f hf
  unfold protocolField at hf
  split at hf
  · cases hf
  · rw [List.mem_singleton.mp hf]

theorem flatMap_protocolField (value : Bytes) :
    (if value = [] then [] else appendHeaderLine (ascii "Sec-WebSocket-Protocol") value) =
      (protocolField value).flatMap (fun f => appendHeaderLine f.1 f.2) := by
  unfold protocolField
  split <;> simp

variable {front custom : List (Bytes × Bytes)} {value : Bytes}

theorem lookup_front (h : Reads headers (fieldMap (front ++ protocolField value ++ custom) ∅))
    (hnodup : ((front.map Prod.fst).map (fun name => name.map toLower)).Nodup) {name value : Bytes}
    (hmem : (name,value) ∈ front)
    (hprot : caseInsensitiveCompare (ascii "Sec-WebSocket-Protocol") name = false)
    (hcus : ∀ f ∈ custom, caseInsensitiveCompare f.1 name = false) :
    (headers.getHeader View.text name).map View.text = some value := by
  rw [List.append_assoc] at h
  refine lookup_named h hnodup hmem (fun f hf => ?_)
  rcases List.mem_append.mp hf with hf | hf
  · rw [protocolField_name f hf,hprot]
  · exact hcus f hf

theorem lookup_protocol (h : Reads headers (fieldMap (front ++ protocolField value ++ custom) ∅))
    (hfront : ∀ name ∈ front.map Prod.fst, caseInsensitiveCompare name (ascii "Sec-WebSocket-Protocol") = false)
    (hcus : ∀ f ∈ custom, caseInsensitiveCompare f.1 (ascii "Sec-WebSocket-Protocol") = false) :
    (headers.getHeader View.text (ascii "Sec-WebSocket-Protocol")).map View.text =
      if value = [] then none else some value := by
  have hfront (f : Bytes × Bytes) (hf : f ∈ front) := hfront f.1 (List.mem_map_of_mem hf)
  have hboth : ∀ f ∈ front ++ custom, caseInsensitiveCompare f.1 (ascii "Sec-WebSocket-Protocol") = false := by
    intro f hf
    exact (List.mem_append.mp hf).elim (hfront f) (hcus f)
  by_cases hvalue : value = []
  · rw [protocolField,if_pos hvalue,List.append_nil] at h
    rw [h.lookup_none hboth,if_pos hvalue,Option.map_none]
  · rw [if_neg hvalue]
    refine h.lookup (by simp [protocolField,hvalue]) (fun f hf hname => ?_)
    rw [protocolField,if_neg hvalue] at hf
    simp only [List.mem_append,List.mem_singleton,or_assoc] at hf
    rcases hf with hf | hf | hf
    · rw [hfront f hf] at hname
      cases hname
    · exact hf
    · rw [hcus f hf] at hname
      cases hname

end Lookup

section Request

open WebSocketClient

def requestNames : List Bytes :=
  [ascii "Host",ascii "Upgrade",ascii "Connection",ascii "Sec-WebSocket-Key",ascii "Sec-WebSocket-Version",
    ascii "Sec-WebSocket-Protocol"]

def requestFront (target : Target) (key : Bytes) : List (Bytes × Bytes) :=
  [(ascii "Host",buildHostHeader target),(ascii "Upgrade",ascii "websocket"),(ascii "Connection",ascii "Upgrade"),
    (ascii "Sec-WebSocket-Key",key),(ascii "Sec-WebSocket-Version",ascii "13"),
    (ascii "User-Agent",ascii "FastNet-WebSocketClient/2.0")]

theorem requestFront_names (target : Target) (key : Bytes) : (requestFront target key).map Prod.fst =
    [ascii "Host",ascii "Upgrade",ascii "Connection",ascii "Sec-WebSocket-Key",ascii "Sec-WebSocket-Version",
      ascii "User-Agent"] := rfl

def requestFields (settings : Settings) (target : Target) (key : Bytes) (headers : ByteMap Bytes) :
    List (Bytes × Bytes) :=
  requestFront target key ++ protocolField (joinSubprotocols settings.subprotocols) ++
    (customFields requestNames settings.handshakeHeaders ++ customFields requestNames headers)

def upgradeLine (path : Bytes) : Bytes := ascii "GET" ++ [32] ++ path ++ ascii " HTTP/1.1"

theorem handshakeRequest_eq (settings : Settings) (target : Target) (key : Bytes) (headers : ByteMap Bytes) :
    handshakeRequest settings target key headers =
      bareText (upgradeLine target.resourcePath) (requestFields settings target key headers) ++ crlfcrlf := by
  have hget : ascii "GET " = ascii "GET" ++ [32] := by decide +kernel
  have hhost : ascii " HTTP/1.1\r\nHost: " = ascii " HTTP/1.1" ++ crlf ++ (ascii "Host" ++ ascii ": ") := by
    decide +kernel
  have hupg : ascii "\r\nUpgrade: websocket\r\nConnection: Upgrade\r\nSec-WebSocket-Key: " =
      crlf ++ appendHeaderLine (ascii "Upgrade") (ascii "websocket") ++
        appendHeaderLine (ascii "Connection") (ascii "Upgrade") ++ (ascii "Sec-WebSocket-Key" ++ ascii ": ") := by
    decide +kernel
  have hver : ascii "\r\nSec-WebSocket-Version: 13\r\nUser-Agent: FastNet-WebSocketClient/2.0\r\n" =
      crlf ++ appendHeaderLine (ascii "Sec-WebSocket-Version") (ascii "13") ++
        appendHeaderLine (ascii "User-Agent") (ascii "FastNet-WebSocketClient/2.0") := by
    decide +kernel
  have hcus (headers : ByteMap Bytes) : headers.toList.flatMap (fun e =>
      if isReservedHandshakeHeader e.1 then [] else appendHeaderLine e.1 e.2) =
      (customFields requestNames headers).flatMap (fun f => appendHeaderLine f.1 f.2) :=
    flatMap_customFields requestNames headers
  rw [bareText_eq]
  simp only [handshakeRequest,hget,hhost,hupg,hver,flatMap_protocolField,List.flatMap_cons,
    List.flatMap_nil,hcus,requestFields,requestFront,upgradeLine,List.flatMap_append]
  simp only [appendHeaderLine,List.append_assoc,List.append_nil]

theorem solid_of_all {text : Bytes} (h : text.all (fun c => !isSpace c) = true) : Address.Solid text := by
  intro c hc
  simpa using List.all_eq_true.mp h c hc

theorem hostHeader_solid {target : Target} (h : Address.Solid target.serverAddress) :
    Address.Solid (buildHostHeader target) := by
  have hport : Address.Solid (toChars 10 target.serverPort) :=
    fun c hc => not_isSpace_of_decimalDigit (mem_toChars hc)
  have hren : Address.Solid (if Address.isValidIPv6 target.serverAddress then
      ascii "[" ++ target.serverAddress ++ ascii "]" else target.serverAddress) := by
    split
    · exact Address.solid_append (Address.solid_append (solid_of_all (by decide)) h) (solid_of_all (by decide))
    · exact h
  simp only [buildHostHeader]
  split
  · exact hren
  · exact Address.solid_append (Address.solid_append hren (solid_of_all (by decide))) hport

theorem joined_plain {protocols : List Bytes} (h : Tokens protocols) :
    13 ∉ joined protocols ∧ Text.trim isSpace (joined protocols) = joined protocols := by
  cases protocols with
  | nil => exact ⟨by simp [joined],rfl⟩
  | cons p ps =>
    have hsolid (q : Bytes) (hq : q ∈ p :: ps) : Address.Solid q := token_solid (h q hq)
    have hne (q : Bytes) (hq : q ∈ p :: ps) : q ≠ [] := (isValidHeaderName_spec (h q hq)).1
    refine ⟨?_,trim_eq_self _ (fun c hc => ?_) (fun c hc => ?_)⟩
    · intro hmem
      rcases List.mem_append.mp hmem with hmem | hmem
      · exact absurd (hsolid p (by simp) 13 hmem) (by decide)
      · obtain ⟨q,hq,hmem⟩ := List.mem_flatMap.mp hmem
        rcases List.mem_append.mp hmem with hmem | hmem
        · exact absurd hmem (by decide)
        · exact absurd (hsolid q (List.mem_cons_of_mem _ hq) 13 hmem) (by decide)
    · rw [joined,List.head?_append_of_ne_nil _ (hne p (by simp))] at hc
      exact hsolid p (by simp) c (List.mem_of_mem_head? hc)
    · induction ps using List.reverseRecOn with
      | nil =>
        simp only [joined,List.flatMap_nil,List.append_nil] at hc
        exact hsolid p (by simp) c (List.mem_of_mem_getLast? hc)
      | append_singleton ps q ih =>
        have hq : q ∈ p :: (ps ++ [q]) := by simp
        rw [joined,List.flatMap_append,List.flatMap_singleton,← List.append_assoc,← List.append_assoc,
          List.getLast?_append_of_ne_nil _ (hne q hq)] at hc
        exact hsolid q hq c (List.mem_of_mem_getLast? hc)

structure Requestable (settings : Settings) (target : Target) (key : Bytes) (headers : ByteMap Bytes) : Prop where
  host : Address.Solid target.serverAddress
  path : target.resourcePath ≠ [] ∧ 32 ∉ target.resourcePath ∧ 13 ∉ target.resourcePath
  custom : ∀ e ∈ settings.handshakeHeaders.toList ++ headers.toList, PlainField e
  tokens : Tokens settings.subprotocols
  lineSize : (upgradeLine target.resourcePath).length ≤ kMaxRequestLineSize
  fieldSize : ∀ f ∈ requestFields settings target key headers, (fieldLine f).length ≤ kMaxHeaderLineSize
  count : (requestFields settings target key headers).length ≤ kMaxHeaderCount
  size : (bareText (upgradeLine target.resourcePath) (requestFields settings target key headers)).length ≤
    kMaxHeaderSectionSize

variable {settings : Settings} {target : Target} {key : Bytes} {headers : ByteMap Bytes}

theorem protocolField_plain {value : Bytes} (h : 13 ∉ value ∧ Text.trim isSpace value = value) :
    ∀ f ∈ protocolField value, PlainField f := by
  intro f hf
  unfold protocolField at hf
  split at hf
  · cases hf
  · have hname : isValidHeaderName (ascii "Sec-WebSocket-Protocol") = true := by decide +kernel
    have hplain : PlainName (ascii "Sec-WebSocket-Protocol") := by constructor <;> decide +kernel
    rw [List.mem_singleton.mp hf]
    exact ⟨hname,hplain,h.1,h.2⟩

theorem requestFront_plain (hhost : Address.Solid target.serverAddress) (hkey : Address.Solid key) :
    ∀ f ∈ requestFront target key, PlainField f := by
  intro f hf
  have hplain (name value : Bytes) (hname : isValidHeaderName name = true) (hplain : PlainName name)
      (hvalue : Address.Solid value) : PlainField (name,value) := HttpClient.plainField_of_solid hname hplain hvalue
  simp only [requestFront,List.mem_cons,List.not_mem_nil,or_false] at hf
  rcases hf with rfl | rfl | rfl | rfl | rfl | rfl
  · exact hplain _ _ (by decide +kernel) (by constructor <;> decide +kernel) (hostHeader_solid hhost)
  · exact hplain _ _ (by decide +kernel) (by constructor <;> decide +kernel) (solid_of_all (by decide +kernel))
  · exact hplain _ _ (by decide +kernel) (by constructor <;> decide +kernel) (solid_of_all (by decide +kernel))
  · exact hplain _ _ (by decide +kernel) (by constructor <;> decide +kernel) hkey
  · exact hplain _ _ (by decide +kernel) (by constructor <;> decide +kernel) (solid_of_all (by decide +kernel))
  · exact hplain _ _ (by decide +kernel) (by constructor <;> decide +kernel) (solid_of_all (by decide +kernel))

theorem Requestable.head (h : Requestable settings target key headers) (hkey : Address.Solid key) :
    BareHead kMaxRequestLineSize (upgradeLine target.resourcePath) (requestFields settings target key headers) := by
  refine ⟨h.lineSize,h.fieldSize,h.count,h.size,?_,?_,by simp [requestFields,requestFront]⟩
  · simp only [upgradeLine,List.mem_append,not_or]
    exact ⟨⟨⟨by decide +kernel,by decide⟩,h.path.2.2⟩,by decide +kernel⟩
  · intro f hf
    simp only [requestFields,List.mem_append,or_assoc] at hf
    rcases hf with hf | hf | hf | hf
    · exact requestFront_plain h.host hkey f hf
    · refine protocolField_plain ?_ f hf
      rw [joinSubprotocols_eq h.tokens]
      exact joined_plain h.tokens
    · exact h.custom f (List.mem_append_left _ (List.mem_filter.mp hf).1)
    · exact h.custom f (List.mem_append_right _ (List.mem_filter.mp hf).1)

theorem joinSubprotocols_nil {protocols : List Bytes} (h : Tokens protocols)
    (hnil : joinSubprotocols protocols = []) : protocols = [] := by
  rw [← splitSubprotocols_join h,hnil]
  rfl

theorem scanHandshake_request (h : Requestable settings target key headers) (hkey : Address.Solid key)
    (hne : key ≠ []) {raw : ByteView} {rest : Bytes}
    (htext : raw.text = handshakeRequest settings target key headers ++ rest) (address : Address) :
    ∃ request, WebSocketServer.scanHandshake raw address =
        .upgrade key request (handshakeRequest settings target key headers).length ∧
      request.requestedSubprotocols = settings.subprotocols := by
  have hhead := h.head hkey
  rw [handshakeRequest_eq] at htext ⊢
  have hfind : find crlfcrlf raw.text 0 = some _ := htext ▸ hhead.find_end rest
  obtain ⟨view,hparse,hreads⟩ := parseRequest_bare hhead (by decide +kernel) h.path.1 h.path.2.1
    (bareText_sub htext)
  have hcus (name : Bytes) (hname : name ∈ requestNames) : ∀ f ∈ customFields requestNames
      settings.handshakeHeaders ++ customFields requestNames headers, caseInsensitiveCompare f.1 name = false := by
    intro f hf
    exact (List.mem_append.mp hf).elim (customFields_not_reserved hname f) (customFields_not_reserved hname f)
  have hnodup : (((requestFront target key).map Prod.fst).map (fun name => name.map toLower)).Nodup := by
    rw [requestFront_names]
    decide +kernel
  have hfield (name value : Bytes) (hmem : (name,value) ∈ requestFront target key) (hname : name ∈ requestNames)
      (hpr : caseInsensitiveCompare (ascii "Sec-WebSocket-Protocol") name = false) :
      WebSocketServer.headerValue view name = value := by
    rw [WebSocketServer.headerValue,lookup_front hreads hnodup hmem hpr (hcus name hname),Option.getD_some]
  have hupg := hfield (ascii "Upgrade") (ascii "websocket") (by simp [requestFront]) (by simp [requestNames])
    (by decide +kernel)
  have hcon := hfield (ascii "Connection") (ascii "Upgrade") (by simp [requestFront]) (by simp [requestNames])
    (by decide +kernel)
  have hkeyValue := hfield (ascii "Sec-WebSocket-Key") key (by simp [requestFront]) (by simp [requestNames])
    (by decide +kernel)
  have hver := hfield (ascii "Sec-WebSocket-Version") (ascii "13") (by simp [requestFront]) (by simp [requestNames])
    (by decide +kernel)
  have hprot : ((view.headers.getHeader View.text (ascii "Sec-WebSocket-Protocol")).map View.text) =
      if joinSubprotocols settings.subprotocols = [] then none
      else some (joinSubprotocols settings.subprotocols) := by
    refine lookup_protocol hreads ?_ (hcus _ (by simp [requestNames]))
    rw [requestFront_names]
    decide +kernel
  refine ⟨WebSocketServer.handshakeRequestOf view address,?_,?_⟩
  · have hweb : ascii "websocket" ≠ [] ∧ ascii "Upgrade" ≠ [] ∧ ascii "13" ≠ [] := by decide +kernel
    have htoken : WebSocketServer.containsToken (ascii "Upgrade") (ascii "upgrade") = true := by decide +kernel
    rw [WebSocketServer.scanHandshake,hfind]
    rw [← upgradeLine] at hparse
    simp only [hparse,hupg,hcon,hkeyValue,hver,bareText_size]
    simp [hweb,hne,htoken,caseInsensitiveCompare]
  · simp only [WebSocketServer.handshakeRequestOf]
    cases hget : view.headers.getHeader View.text (ascii "Sec-WebSocket-Protocol") with
    | none =>
      rw [hget,Option.map_none] at hprot
      split at hprot
      · rename_i hnil
        exact (joinSubprotocols_nil h.tokens hnil).symm
      · cases hprot
    | some protocols =>
      rw [hget,Option.map_some] at hprot
      split at hprot
      · cases hprot
      · show WebSocketServer.splitSubprotocols protocols.text = settings.subprotocols
        rw [Option.some.inj hprot]
        exact splitSubprotocols_join h.tokens

end Request

section Response

open WebSocketServer

def responseNames : List Bytes :=
  [ascii "Upgrade",ascii "Connection",ascii "Sec-WebSocket-Accept",ascii "Sec-WebSocket-Protocol",
    ascii "Content-Length"]

def responseFront (key : Bytes) : List (Bytes × Bytes) :=
  [(ascii "Upgrade",ascii "websocket"),(ascii "Connection",ascii "Upgrade"),
    (ascii "Sec-WebSocket-Accept",createAcceptKey key)]

theorem responseFront_names (key : Bytes) : (responseFront key).map Prod.fst =
    [ascii "Upgrade",ascii "Connection",ascii "Sec-WebSocket-Accept"] := rfl

def responseFields (key : Bytes) (response : WebSocketServerHandshakeResponse) : List (Bytes × Bytes) :=
  responseFront key ++ protocolField response.acceptedSubprotocol ++ customFields responseNames response.headers

def switchingLine : Bytes := statusLine 101 (ascii "Switching Protocols")

theorem buildHandshakeResponse_eq (key : Bytes) (response : WebSocketServerHandshakeResponse) :
    buildHandshakeResponse key response = bareText switchingLine (responseFields key response) ++ crlfcrlf := by
  have hline : ascii "HTTP/1.1 101 Switching Protocols\r\n" = switchingLine ++ crlf := by decide +kernel
  have hupg : ascii "Upgrade: websocket\r\n" = appendHeaderLine (ascii "Upgrade") (ascii "websocket") := by
    decide +kernel
  have hcon : ascii "Connection: Upgrade\r\n" = appendHeaderLine (ascii "Connection") (ascii "Upgrade") := by
    decide +kernel
  have hacc : ascii "Sec-WebSocket-Accept: " = ascii "Sec-WebSocket-Accept" ++ ascii ": " := by decide +kernel
  have hcus : response.headers.toList.flatMap (fun e =>
      if isReservedHandshakeResponseHeader e.1 then [] else appendHeaderLine e.1 e.2) =
      (customFields responseNames response.headers).flatMap (fun f => appendHeaderLine f.1 f.2) :=
    flatMap_customFields responseNames response.headers
  rw [bareText_eq]
  simp only [buildHandshakeResponse,hline,hupg,hcon,hacc,flatMap_protocolField,hcus,
    responseFields,responseFront,List.flatMap_append,List.flatMap_cons,List.flatMap_nil]
  simp only [appendHeaderLine,List.append_assoc,List.append_nil]

/-- A response that the server may send: its subprotocol is a token and its headers are
well formed. -/
structure Answerable (key : Bytes) (response : WebSocketServerHandshakeResponse) : Prop where
  custom : ∀ e ∈ response.headers.toList, PlainField e
  token : response.acceptedSubprotocol ≠ [] → isValidHeaderName response.acceptedSubprotocol = true
  fieldSize : ∀ f ∈ responseFields key response, (fieldLine f).length ≤ kMaxHeaderLineSize
  count : (responseFields key response).length ≤ kMaxHeaderCount
  size : (bareText switchingLine (responseFields key response)).length ≤ kMaxHeaderSectionSize

variable {key : Bytes} {response : WebSocketServerHandshakeResponse}

theorem responseFront_plain (key : Bytes) : ∀ f ∈ responseFront key, PlainField f := by
  intro f hf
  have hplain (name value : Bytes) (hname : isValidHeaderName name = true) (hplain : PlainName name)
      (hvalue : Address.Solid value) : PlainField (name,value) := HttpClient.plainField_of_solid hname hplain hvalue
  simp only [responseFront,List.mem_cons,List.not_mem_nil,or_false] at hf
  rcases hf with rfl | rfl | rfl
  · exact hplain _ _ (by decide +kernel) (by constructor <;> decide +kernel) (solid_of_all (by decide +kernel))
  · exact hplain _ _ (by decide +kernel) (by constructor <;> decide +kernel) (solid_of_all (by decide +kernel))
  · exact hplain _ _ (by decide +kernel) (by constructor <;> decide +kernel) (base64Encode_solid _)

theorem Answerable.head (h : Answerable key response) :
    BareHead kMaxStatusLineSize switchingLine (responseFields key response) := by
  refine ⟨by decide +kernel,h.fieldSize,h.count,h.size,by decide +kernel,?_,by simp [responseFields,responseFront]⟩
  intro f hf
  simp only [responseFields,List.mem_append,or_assoc] at hf
  rcases hf with hf | hf | hf
  · exact responseFront_plain key f hf
  · by_cases hnone : response.acceptedSubprotocol = []
    · rw [hnone,protocolField,if_pos rfl] at hf
      cases hf
    · have hsolid := token_solid (h.token hnone)
      refine protocolField_plain ⟨?_,HttpClient.trim_solid hsolid⟩ f hf
      intro hmem
      exact absurd (hsolid 13 hmem) (by decide)
  · exact h.custom f (List.mem_filter.mp hf).1

theorem scanResponse_response (h : Answerable key response) {subprotocols : List Bytes}
    (hasked : response.acceptedSubprotocol ≠ [] →
      WebSocketClient.containsSubprotocol subprotocols response.acceptedSubprotocol = true)
    {raw : ByteView} {rest : Bytes} (htext : raw.text = buildHandshakeResponse key response ++ rest) :
    WebSocketClient.scanResponse subprotocols key raw =
      .accepted (if response.acceptedSubprotocol = [] then none else some response.acceptedSubprotocol)
        (buildHandshakeResponse key response).length := by
  have hhead := h.head
  rw [buildHandshakeResponse_eq] at htext ⊢
  have hfind : find crlfcrlf raw.text 0 = some _ := htext ▸ hhead.find_end rest
  obtain ⟨view,hparse,hstatus,hreads⟩ := parseResponse_bare (by decide) (by decide) hhead (bareText_sub htext)
  rw [← switchingLine] at hparse
  have hnodup : (((responseFront key).map Prod.fst).map (fun name => name.map toLower)).Nodup := by
    rw [responseFront_names]
    decide +kernel
  have hfield (name value : Bytes) (hmem : (name,value) ∈ responseFront key) (hname : name ∈ responseNames)
      (hprot : caseInsensitiveCompare (ascii "Sec-WebSocket-Protocol") name = false) :
      (view.headers.getHeader View.text name).map View.text = some value :=
    lookup_front hreads hnodup hmem hprot (customFields_not_reserved hname)
  have hupg := hfield (ascii "Upgrade") (ascii "websocket") (by simp [responseFront]) (by simp [responseNames])
    (by decide +kernel)
  have hcon := hfield (ascii "Connection") (ascii "Upgrade") (by simp [responseFront]) (by simp [responseNames])
    (by decide +kernel)
  have hacc := hfield (ascii "Sec-WebSocket-Accept") (createAcceptKey key) (by simp [responseFront])
    (by simp [responseNames]) (by decide +kernel)
  have hprot : (view.headers.getHeader View.text (ascii "Sec-WebSocket-Protocol")).map View.text =
      if response.acceptedSubprotocol = [] then none else some response.acceptedSubprotocol := by
    refine lookup_protocol hreads ?_ (customFields_not_reserved (by simp [responseNames]))
    rw [responseFront_names]
    decide +kernel
  have htoken : find (ascii "upgrade") ((ascii "Upgrade").map toLower) 0 ≠ none := by decide +kernel
  rw [WebSocketClient.scanResponse,hfind,bareText_size]
  simp only [hparse,WebSocketClient.checkResponse,hupg,hcon,hacc,hprot,hstatus]
  by_cases hnone : response.acceptedSubprotocol = []
  · simp [hnone,htoken,caseInsensitiveCompare]
  · have hne : subprotocols ≠ [] := by
      intro hnil
      have := hasked hnone
      rw [hnil] at this
      cases this
    have htrim : trim response.acceptedSubprotocol = response.acceptedSubprotocol :=
      trim_token (h.token hnone)
    simp [hnone,htoken,hne,hasked hnone,htrim,caseInsensitiveCompare]

end Response

section Choice

variable {serverProtocols clientProtocols : List Bytes}

def agreed (serverProtocols clientProtocols : List Bytes) : Option Bytes :=
  serverProtocols.find? (fun p => clientProtocols.any (fun q => caseInsensitiveCompare q p))

section

variable (h : Tokens serverProtocols)
include h

theorem selectSubprotocol_eq :
    WebSocketServer.selectSubprotocol serverProtocols clientProtocols =
      (agreed serverProtocols clientProtocols).getD [] := by
  rw [WebSocketServer.selectSubprotocol,agreed]
  congr 1
  induction serverProtocols with
  | nil => rfl
  | cons p ps ih =>
    have hp : WebSocketServer.containsSubprotocol clientProtocols p =
        clientProtocols.any (fun q => caseInsensitiveCompare q p) := by
      rw [WebSocketServer.containsSubprotocol,trim_token (h p (by simp))]
    rw [List.find?_cons,List.find?_cons,hp,ih (fun q hq => h q (List.mem_cons_of_mem _ hq))]

theorem agreed_token {p : Bytes} (hp : agreed serverProtocols clientProtocols = some p) :
    isValidHeaderName p = true :=
  h p (List.mem_of_find?_eq_some hp)

theorem containsSubprotocol_agreed {p : Bytes}
    (hp : agreed serverProtocols clientProtocols = some p) :
    WebSocketServer.containsSubprotocol clientProtocols p = true := by
  rw [WebSocketServer.containsSubprotocol,trim_token (agreed_token h hp)]
  simpa using List.find?_some hp

theorem agreed_getD :
    (if (agreed serverProtocols clientProtocols).getD [] = [] then none
      else some ((agreed serverProtocols clientProtocols).getD [])) = agreed serverProtocols clientProtocols := by
  cases hp : agreed serverProtocols clientProtocols with
  | none => rfl
  | some p =>
    have hne := (isValidHeaderName_spec (agreed_token h hp)).1
    simp [hne]

end

end Choice

section Agreement

namespace WebSocketProtocol

def createHandshakeKey (entropy : Vector UInt8 16) : Bytes := base64Encode entropy.toList

end WebSocketProtocol

variable {key : Bytes}

namespace WebSocketServer

def answered (settings : Settings) (asked : Nat) (request : WebSocketServerHandshakeRequest) :
    WebSocketServerHandshakeResponse :=
  let proposed := proposedResponse settings.handshakeResponseHeaders settings.subprotocols request
  match settings.handshakeCallback with
  | some callback => callback asked request proposed
  | none => proposed

/-- A request that the callback does not reject, with a response whose headers are well
formed. -/
structure Welcome (settings : Settings) (key : Bytes) (asked : Nat) (request : WebSocketServerHandshakeRequest) :
    Prop where
  accept : (answered settings asked request).accept = true
  subprotocol : (answered settings asked request).acceptedSubprotocol =
    selectSubprotocol settings.subprotocols request.requestedSubprotocols
  custom : ∀ e ∈ (answered settings asked request).headers.toList, PlainField e
  fieldSize : ∀ f ∈ responseFields key (answered settings asked request), (fieldLine f).length ≤ kMaxHeaderLineSize
  count : (responseFields key (answered settings asked request)).length ≤ kMaxHeaderCount
  size : (bareText switchingLine (responseFields key (answered settings asked request))).length ≤ kMaxHeaderSectionSize

theorem answer_eq (settings : Settings) (c : Connection) (request : WebSocketServerHandshakeRequest) :
    (answer settings c request).2 = checkedResponse request (answered settings c.asked request) := by
  unfold answer answered
  cases settings.handshakeCallback <;> rfl

theorem answer_asked (settings : Settings) (c : Connection) (request : WebSocketServerHandshakeRequest) :
    ∃ asked, (answer settings c request).1 = { c with asked } := by
  unfold answer
  cases settings.handshakeCallback with
  | none => exact ⟨c.asked,rfl⟩
  | some callback => exact ⟨c.asked+1,rfl⟩

variable {settings : Settings} {asked : Nat} {request : WebSocketServerHandshakeRequest}

theorem Welcome.answerable (h : Welcome settings key asked request) (htok : Tokens settings.subprotocols) :
    Answerable key (answered settings asked request) := by
  refine ⟨h.custom,fun hne => ?_,h.fieldSize,h.count,h.size⟩
  rw [h.subprotocol,selectSubprotocol_eq htok] at hne ⊢
  cases hp : agreed settings.subprotocols request.requestedSubprotocols with
  | none => simp [hp] at hne
  | some p => exact agreed_token htok hp

theorem Welcome.checked (h : Welcome settings key asked request) (htok : Tokens settings.subprotocols) :
    checkedResponse request (answered settings asked request) = answered settings asked request := by
  rw [checkedResponse,if_neg]
  rintro ⟨hne,hcon⟩
  rw [h.subprotocol,selectSubprotocol_eq htok] at hne hcon
  cases hp : agreed settings.subprotocols request.requestedSubprotocols with
  | none => simp [hp] at hne
  | some p => simp [hp,containsSubprotocol_agreed htok hp] at hcon

structure Fresh (c : Connection) (state : ClientState) : Prop where
  session : c.session = true
  client : c.client = some state
  status : state.status = .handshake
  unread : unread state = []
  placed : state.bufferOffset ≤ state.buffer.length
  reading : c.reading = []

theorem Fresh.unread_append {c : Connection} {state : ClientState} (h : Fresh c state) (now : Nat) (bytes : Bytes) :
    WebSocketServer.unread (appendData state now bytes) = bytes := by
  show (append state.buffer state.bufferOffset bytes).drop state.bufferOffset = bytes
  have hnone : state.buffer.drop state.bufferOffset = [] := h.unread
  rw [drop_append h.placed,hnone,List.nil_append]

section Reads

variable {c : Connection} {state : ClientState} {env : Env} {size : Nat}

theorem read_answer (hread : c.reading = [.answer key request size]) (htok : Tokens settings.subprotocols)
    (hwel : Welcome settings key c.asked request) :
    ∃ asked, step settings c (.read env) =
      { c with asked, reading := [.accept key (answered settings c.asked request) size] } := by
  obtain ⟨asked,hasked⟩ := answer_asked settings c request
  have hans : answer settings c request = ({ c with asked },answered settings c.asked request) := by
    refine Prod.ext hasked ?_
    rw [answer_eq,hwel.checked htok]
  refine ⟨asked,?_⟩
  simp only [step,hread,perform,hans,hwel.accept,if_true,List.append_nil]

theorem read_establish {subprotocol : Bytes} (hclient : c.client = some state)
    (hread : c.reading = [.establish subprotocol size]) :
    (∃ state', (step settings c (.read env)).client = some state' ∧ state'.status = .connected ∧
      state'.subprotocol = subprotocol) ∧ (step settings c (.read env)).queued = c.queued := by
  simp only [step,hread,perform,hclient]
  exact ⟨⟨_,rfl,rfl,rfl⟩,trivial⟩

end Reads

/-- The reads that take a request through `handleHandshake`. -/
def handshakeReads (e₀ e₁ e₂ e₃ : Env) : List Event := [.read e₀,.read e₁,.read e₂,.read e₃]

theorem run_handshake {c : Connection} {state : ClientState} (hfresh : Fresh c state)
    (htok : Tokens settings.subprotocols) {bytes : Bytes} {size : Nat}
    (hscan : scanHandshake (.whole bytes) state.clientAddress = .upgrade key request size)
    (hwel : Welcome settings key c.asked request) (now : Nat) (e₀ e₁ e₂ e₃ : Env) :
    (∃ state', (runs (step settings) c (.data bytes now :: handshakeReads e₀ e₁ e₂ e₃)).client = some state' ∧
      state'.status = .connected ∧
      state'.subprotocol = selectSubprotocol settings.subprotocols request.requestedSubprotocols) ∧
      (runs (step settings) c (.data bytes now :: handshakeReads e₀ e₁ e₂ e₃)).queued =
        c.queued ++ [.accepted key (answered settings c.asked request)] := by
  let c₀ := { c with client := some (appendData state now bytes), lastSegment := bytes.length }
  have hdata : step settings c (.data bytes now) = { c₀ with reading := [.handshake] } := by
    simp only [step,hfresh.client,hfresh.reading,hfresh.status,dataCalls,c₀]
  have hraw : scanHandshake (makeBufferedView (appendData state now bytes))
      (appendData state now bytes).clientAddress = .upgrade key request size := by
    rw [makeBufferedView_eq,hfresh.unread_append]
    exact hscan
  have hhan : step settings { c₀ with reading := [.handshake] } (.read e₀) =
      { c₀ with reading := [.answer key request size] } := by
    have hclient : c₀.client = some (appendData state now bytes) := rfl
    simp only [step,perform,hclient,hraw,List.append_nil]
  have hans : ∃ asked, step settings { c₀ with reading := [.answer key request size] } (.read e₁) =
      { c₀ with asked, reading := [.accept key (answered settings c.asked request) size] } :=
    read_answer rfl htok hwel
  obtain ⟨asked,hans⟩ := hans
  have hacc : step settings
      { c₀ with asked, reading := [.accept key (answered settings c.asked request) size] } (.read e₂) =
      { c₀ with
        asked, queued := c.queued ++ [.accepted key (answered settings c.asked request)],
        reading := [.establish (answered settings c.asked request).acceptedSubprotocol size] } := by
    have hsession : c₀.session = true := hfresh.session
    simp only [step,perform,push,hsession,if_true,List.append_nil]
    rfl
  rw [← hwel.subprotocol,handshakeReads]
  simp only [runs_cons,runs_nil]
  rw [hdata,hhan,hans,hacc]
  exact read_establish rfl rfl

end WebSocketServer

namespace WebSocketClient

variable {settings : Settings} {c : Client}

structure Expects (c : Client) (key : Bytes) : Prop where
  transport : c.transport = .connected
  state : c.state = .handshake
  reading : c.reading = []
  buffer : c.buffer = []
  offset : c.bufferOffset = 0
  key : c.handshakeKey = key

theorem Expects.run_response (h : Expects c key) {subprotocol : Option Bytes} {bytes : Bytes} {size : Nat}
    (hscan : scanResponse settings.subprotocols key (.whole bytes) = .accepted subprotocol size) (env : Env) :
    let done := runs (step settings) c [.data bytes,.read env]
    done.state = .connected ∧ done.connected = true ∧ done.acceptedSubprotocol = subprotocol := by
  have hdata : step settings c (.data bytes) = { c with
      buffer := bytes, reading := [.handshakeResponse] } := by
    simp only [step,h.transport,h.reading,h.state,dataCalls,h.buffer,h.offset,append_eq,List.nil_append]
  have hraw : scanResponse settings.subprotocols c.handshakeKey
      ({ c with buffer := bytes, reading := [.handshakeResponse] } : Client).makeBufferedView =
        .accepted subprotocol size := by
    rw [makeBufferedView_eq,unread,h.offset,List.drop_zero,h.key,hscan]
  simp only [runs_cons,runs_nil,hdata]
  simp only [step,perform,hraw]
  exact ⟨rfl,rfl,rfl⟩

theorem handleTcpConnected_sends (c : Client) {env : Env} (hlost : env.lost = none) (key : Bytes) :
    c.handleTcpConnected settings env key = { c with
      transport := .connected, connected := false, state := .handshake, buffer := [], bufferOffset := 0,
      handshakeKey := key,
      queued := c.queued ++ [.request (handshakeRequest settings c.target key c.oneShotHandshakeHeaders)] } := by
  simp only [Client.handleTcpConnected,Client.send,if_true,hlost]

end WebSocketClient

theorem createHandshakeKey_ne_nil (entropy : Vector UInt8 16) : createHandshakeKey entropy ≠ [] := by
  refine base64Encode_ne_nil (fun hnil => ?_)
  have hlen := congrArg List.length hnil
  rw [Vector.length_toList] at hlen
  cases hlen

/-- The two ends of a well-formed handshake are connected behind it, and both have recorded
the first subprotocol of the server that the client knows. -/
theorem handshake_agreement (settings : WebSocketClient.Settings) (serverSettings : WebSocketServer.Settings)
    (c : WebSocketClient.Client) (hreading : c.reading = []) (env : WebSocketClient.Env) (hlost : env.lost = none)
    (entropy : Vector UInt8 16)
    (hrequest : Requestable settings c.target (createHandshakeKey entropy) c.oneShotHandshakeHeaders)
    (connection : WebSocketServer.Connection) (state : WebSocketServer.ClientState)
    (hfresh : WebSocketServer.Fresh connection state) (htokens : Tokens serverSettings.subprotocols)
    (hwelcome : ∀ request : WebSocketServerHandshakeRequest, request.requestedSubprotocols = settings.subprotocols →
      WebSocketServer.Welcome serverSettings (createHandshakeKey entropy) connection.asked request)
    (now : Nat) (e₀ e₁ e₂ e₃ : WebSocketServer.Env) (e : WebSocketClient.Env) (rest : Bytes) :
    ∃ response,
      let key := createHandshakeKey entropy
      let sent := WebSocketClient.handshakeRequest settings c.target key c.oneShotHandshakeHeaders
      let trying := c.handleTcpConnected settings env key
      let serving := Machine.runs (WebSocketServer.step serverSettings) connection
        (.data sent now :: WebSocketServer.handshakeReads e₀ e₁ e₂ e₃)
      let done := Machine.runs (WebSocketClient.step settings) trying
        [.data ((WebSocketServer.Item.accepted key response).bytes ++ rest),.read e]
      trying.queued = c.queued ++ [.request sent] ∧
        serving.queued = connection.queued ++ [.accepted key response] ∧
        (∃ state', serving.client = some state' ∧ state'.status = .connected ∧
          state'.subprotocol = (agreed serverSettings.subprotocols settings.subprotocols).getD []) ∧
        done.state = .connected ∧ done.connected = true ∧
        done.acceptedSubprotocol = agreed serverSettings.subprotocols settings.subprotocols := by
  let key := createHandshakeKey entropy
  let sent := WebSocketClient.handshakeRequest settings c.target key c.oneShotHandshakeHeaders
  have hraw : (View.whole sent).text = sent ++ [] := by rw [View.whole_text,List.append_nil]
  obtain ⟨request,hscan,hprot⟩ := scanHandshake_request hrequest (base64Encode_solid _)
    (createHandshakeKey_ne_nil entropy) hraw state.clientAddress
  have hwelcome := hwelcome request hprot
  obtain ⟨hser,hqu⟩ := WebSocketServer.run_handshake hfresh htokens hscan hwelcome now e₀ e₁ e₂ e₃
  let response := WebSocketServer.answered serverSettings connection.asked request
  have hsub : response.acceptedSubprotocol =
      (agreed serverSettings.subprotocols settings.subprotocols).getD [] := by
    rw [hwelcome.subprotocol,hprot,selectSubprotocol_eq htokens]
  have hasked : response.acceptedSubprotocol ≠ [] →
      WebSocketClient.containsSubprotocol settings.subprotocols response.acceptedSubprotocol = true := by
    intro hne
    rw [hsub] at hne ⊢
    cases hp : agreed serverSettings.subprotocols settings.subprotocols with
    | none => simp [hp] at hne
    | some p => exact containsSubprotocol_agreed htokens hp
  have hres := scanResponse_response (hwelcome.answerable htokens) hasked (View.whole_text
    (WebSocketServer.buildHandshakeResponse key response ++ rest))
  rw [hsub,agreed_getD htokens] at hres
  rw [hprot,selectSubprotocol_eq htokens] at hser
  refine ⟨response,?_,hqu,hser,?_⟩
  · rw [WebSocketClient.handleTcpConnected_sends c hlost]
  · have hexp : WebSocketClient.Expects (c.handleTcpConnected settings env key) key := by
      rw [WebSocketClient.handleTcpConnected_sends c hlost]
      exact ⟨rfl,rfl,hreading,rfl,rfl,rfl⟩
    exact hexp.run_response hres e

def chatClient : WebSocketClient.Settings := { subprotocols := [ascii "chat",ascii "mqtt"] }

def chatServer : WebSocketServer.Settings := { subprotocols := [ascii "news",ascii "MQTT",ascii "Chat"] }

def chatTarget : WebSocketClient.Target := { serverAddress := ascii "localhost", resourcePath := ascii "/chat" }

def chatEntropy : Vector UInt8 16 := Vector.replicate 16 7

theorem chatClient_requestable : Requestable chatClient chatTarget (createHandshakeKey chatEntropy) ∅ where
  host := solid_of_all (by decide +kernel)
  path := by decide +kernel
  custom := by simp [chatClient]
  tokens := by unfold Tokens; decide +kernel
  lineSize := by decide +kernel
  fieldSize := by decide +kernel
  count := by decide +kernel
  size := by decide +kernel

theorem chatServer_welcome {request : WebSocketServerHandshakeRequest}
    (h : request.requestedSubprotocols = chatClient.subprotocols) :
    WebSocketServer.Welcome chatServer (createHandshakeKey chatEntropy) 0 request := by
  have hans : WebSocketServer.answered chatServer 0 request =
      { acceptedSubprotocol := WebSocketServer.selectSubprotocol chatServer.subprotocols chatClient.subprotocols } := by
    rw [← h]
    rfl
  refine ⟨by rw [hans],by rw [hans,h],by simp [hans],?_,?_,?_⟩
  · rw [hans]
    decide +kernel
  · rw [hans]
    decide +kernel
  · rw [hans]
    decide +kernel

theorem handshake_agreement_chat :
    let sent := WebSocketClient.handshakeRequest chatClient chatTarget (createHandshakeKey chatEntropy) ∅
    ∃ state, (Machine.runs (WebSocketServer.step chatServer) (WebSocketServer.step chatServer {} (.connected false {} 0))
      (.data sent 1 :: WebSocketServer.handshakeReads {} {} {} {})).client = some state ∧
      state.status = .connected ∧ state.subprotocol = ascii "MQTT" := by
  obtain ⟨-,-,-,⟨state,hclient,hstatus,hsub⟩,-⟩ := handshake_agreement chatClient chatServer
    { target := chatTarget } rfl {} rfl chatEntropy chatClient_requestable
    (WebSocketServer.step chatServer {} (.connected false {} 0)) {} ⟨rfl,rfl,rfl,rfl,Nat.le_refl 0,rfl⟩
    (by unfold Tokens; decide +kernel) (fun request h => chatServer_welcome h) 1 {} {} {} {} {} []
  have hagr : (agreed chatServer.subprotocols chatClient.subprotocols).getD [] = ascii "MQTT" := by decide +kernel
  exact ⟨state,hclient,hstatus,hsub.trans hagr⟩

end Agreement

end FastNet
