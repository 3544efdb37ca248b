import Mathlib.Data.Nat.Digits.Defs
import PBTransfor.Uws.Handshake
import PBTransfor.Uws.Uri

/-!
# Uws — the opening of a connection

What `Hub::connect` asks for, what `HttpSocket<SERVER>` answers, and that the two understand each
other.

* `request_understood`: a server finds in the request the path it is for, and answers, whatever
  the address, if there is no `'\r'` in it.
* `opening_carries`: the messages the server sends behind its answer arrive.
-/

namespace PBTransfor.Uws

open Library

/-! ### The request -/

/-- `std::to_string`. -/
def decimal (z : Int) : List Byte :=
  let digits := if z = 0 then [48] else
    (Nat.digits 10 z.natAbs).reverse.map fun d => 48 + d.toUInt8
  if z < 0 then 45 :: digits else digits

def randomKey : List Byte := text "x3JJHMbDL1EzLkh9GBhXDw=="

/-- What `Hub::connect` puts into `httpBuffer`, to be sent. -/
def request (uri : Uri) (extraHeaders : List (List Byte × List Byte)) : List Byte :=
  text "GET /" ++ uri.path ++ text " HTTP/1.1\r\n" ++ text "Upgrade: websocket\r\n" ++
    text "Connection: Upgrade\r\n" ++ text "Sec-WebSocket-Key: " ++ randomKey ++ text "\r\n" ++
    text "Host: " ++ uri.hostname ++ text ":" ++ decimal uri.port ++ text "\r\n" ++
    text "Sec-WebSocket-Version: 13\r\n" ++
    extraHeaders.flatMap (fun header => header.1 ++ text ": " ++ header.2 ++ text "\r\n") ++
    text "\r\n"

/-! ### The response -/

def b64 : List Byte :=
  text "ABCDEFGHIJKLMNOPQRSTUVWXYZabcdefghijklmnopqrstuvwxyz0123456789+/"

/-- The characters of three bytes. -/
def base64Group (x y z : Byte) : List Byte :=
  [b64.getD ((x >>> 2) &&& 63).toNat 0,
    b64.getD (((x &&& 3) <<< 4) ||| ((y &&& 240) >>> 4)).toNat 0,
    b64.getD (((y &&& 15) <<< 2) ||| ((z &&& 192) >>> 6)).toNat 0,
    b64.getD (z &&& 63).toNat 0]

/-- `base64`, of a digest, which has 20 bytes. -/
def base64 (src : List Byte) : List Byte :=
  let c := fun i => src.getD i 0
  base64Group (c 0) (c 1) (c 2) ++ base64Group (c 3) (c 4) (c 5) ++ base64Group (c 6) (c 7) (c 8) ++
    base64Group (c 9) (c 10) (c 11) ++ base64Group (c 12) (c 13) (c 14) ++
    base64Group (c 15) (c 16) (c 17) ++
    [b64.getD ((c 18 >>> 2) &&& 63).toNat 0,
      b64.getD (((c 18 &&& 3) <<< 4) ||| ((c 19 &&& 240) >>> 4)).toNat 0,
      b64.getD ((c 19 &&& 15) <<< 2).toNat 0, 61]

/-- What a server has besides: `SHA1`, and `ExtensionsNegotiator`, of which the answer to an offer
is all that counts here. -/
structure ServerGroup where
  SHA1 : List Byte → List Byte
  generateOffer : List Byte → List Byte

section
variable (G : ServerGroup)

/-- A line of the response that is there only for a value that is short, and not empty. -/
def optionalLine (name value : List Byte) : List Byte :=
  if value ≠ [] ∧ value.length < 200 then name ++ value ++ text "\r\n" else []

/-- What `HttpSocket<SERVER>::upgrade` sends. -/
def response (secKey extensions subprotocol : List Byte) : List Byte :=
  let extensionsResponse := if extensions ≠ [] then G.generateOffer extensions else []
  let shaDigest := G.SHA1 (secKey ++ text "258EAFA5-E914-47DA-95CA-C5AB0DC85B11")
  text "HTTP/1.1 101 Switching Protocols\r\n" ++ text "Upgrade: websocket\r\n" ++
    text "Connection: Upgrade\r\n" ++ text "Sec-WebSocket-Accept: " ++ base64 shaDigest ++
    text "\r\n" ++
    optionalLine (text "Sec-WebSocket-Extensions: ") extensionsResponse ++
    optionalLine (text "Sec-WebSocket-Protocol: ") (subprotocol.takeWhile (· ≠ 44)) ++
    text "Sec-WebSocket-Version: 13\r\n" ++ text "WebSocket-Server: uWebSockets\r\n" ++ text "\r\n"

/-- The value of a header, empty where there is none. -/
def headerValue (headers : List Header) (key : String) : List Byte :=
  ((getHeader headers (text key)).map Header.value).getD []

/-- `HttpSocket<SERVER>::onData`, of a head that speaks of an upgrade, when there is no
`httpUpgradeHandler`: the URL, and the response, if the key is one. -/
def serverUpgrade (headers : List Header) : Option (List Byte × List Byte) :=
  let url := (headers.head?.map Header.value).getD []
  if (getHeader headers (text "upgrade")).isSome ∧
      (headerValue headers "sec-websocket-key").length = 24 then
    some (url.take (url.length - 9), response G (headerValue headers "sec-websocket-key")
      (headerValue headers "sec-websocket-extensions")
      (headerValue headers "sec-websocket-protocol"))
  else none

end

/-! ### Lines that are written -/

theorem forall_of_all {p : Byte → Bool} {b : List Byte} (h : b.all p = true) :
    ∀ c ∈ b, p c = true := List.all_eq_true.mp h

/-! The literals, as the lines they are. -/

theorem text_upgrade : text "Upgrade: websocket\r\n" =
    text "Upgrade" ++ text ": " ++ text "websocket" ++ text "\r\n" := rfl

theorem text_connection : text "Connection: Upgrade\r\n" =
    text "Connection" ++ text ": " ++ text "Upgrade" ++ text "\r\n" := rfl

theorem text_host : text "Host: " = text "Host" ++ text ": " := rfl

theorem text_version : text "Sec-WebSocket-Version: 13\r\n" =
    text "Sec-WebSocket-Version" ++ text ": " ++ text "13" ++ text "\r\n" := rfl

namespace HeaderLine

/-- `key: value`. -/
def write (key value : List Byte) (hkey : ∀ c ∈ key, isKey c = true)
    (hvalue : ∀ c ∈ value, isValue c = true) : HeaderLine where
  key := key
  mark := 58
  gap := 32 :: value.takeWhile isGap
  value := value.dropWhile isGap
  key_isKey := hkey
  mark_isKey := rfl
  mark_ne := by decide
  gap_isGap := List.forall_mem_cons.mpr ⟨rfl, (cut isGap value).all⟩
  value_head := (cut isGap value).head
  value_isValue c hc := hvalue c ((List.dropWhile_sublist isGap).subset hc)

/-- The first line, of which the first word is taken for the key. -/
def first (key value : List Byte) (hkey : ∀ c ∈ key, isKey c = true)
    (hhead : ∀ c ∈ value.head?, isGap c = false) (hvalue : ∀ c ∈ value, isValue c = true) :
    HeaderLine where
  key := key
  mark := 32
  gap := []
  value := value
  key_isKey := hkey
  mark_isKey := rfl
  mark_ne := by decide
  gap_isGap := nofun
  value_head := hhead
  value_isValue := hvalue

/-- A line that is written in the source. -/
def literal (key value : String) (h : ((text key).all isKey && (text value).all isValue) = true) :
    HeaderLine :=
  write (text key) (text value) (forall_of_all (Bool.and_eq_true_iff.mp h).1)
    (forall_of_all (Bool.and_eq_true_iff.mp h).2)

variable {key value : List Byte} {hkey : ∀ c ∈ key, isKey c = true}
  {hhead : ∀ c ∈ value.head?, isGap c = false} {hvalue : ∀ c ∈ value, isValue c = true}

@[simp] theorem bytes_write : (write key value hkey hvalue).bytes =
    key ++ text ": " ++ value ++ text "\r\n" := by
  have hgap := (cut isGap value).eq
  calc (write key value hkey hvalue).bytes
      = key ++ 58 :: 32 :: (value.takeWhile isGap ++ (value.dropWhile isGap ++ [13, 10])) := rfl
    _ = key ++ 58 :: 32 :: (value ++ [13, 10]) := by rw [← List.append_assoc, ← hgap]
    _ = key ++ text ": " ++ value ++ text "\r\n" := by
      rw [List.append_assoc, List.append_assoc]
      rfl

@[simp] theorem bytes_first : (first key value hkey hhead hvalue).bytes =
    key ++ text " " ++ value ++ text "\r\n" := by
  rw [List.append_assoc, List.append_assoc]
  rfl

@[simp] theorem header_write : (write key value hkey hvalue).header =
    ⟨key.map lower, value.dropWhile isGap⟩ := rfl

@[simp] theorem header_first : (first key value hkey hhead hvalue).header =
    ⟨key.map lower, value⟩ := rfl

end HeaderLine

section
variable {uri : Uri} {extraHeaders : List (List Byte × List Byte)}

theorem isValue_digit {n : Nat} (h : n < 10) : isValue (48 + n.toUInt8) = true := by
  have hall : ∀ n < 10, isValue (48 + n.toUInt8) = true := by decide
  exact hall n h

theorem isValue_decimal (z : Int) : ∀ c ∈ decimal z, isValue c = true := by
  have hdigits : ∀ c ∈ (if z = 0 then [48] else
      (Nat.digits 10 z.natAbs).reverse.map fun d => (48 + d.toUInt8 : Byte)), isValue c = true := by
    split
    · exact List.forall_mem_singleton.mpr rfl
    · intro c hc
      obtain ⟨d, hd, rfl⟩ := List.mem_map.mp hc
      exact isValue_digit (Nat.digits_lt_base (by decide) (List.mem_reverse.mp hd))
  rw [decimal]
  split
  · exact List.forall_mem_cons.mpr ⟨rfl, hdigits⟩
  · exact hdigits

/-- An extra header, as it is read. -/
def readBack (header : List Byte × List Byte) : Header :=
  ⟨header.1.map lower, header.2.dropWhile isGap⟩

/-- The lines of extra headers. -/
theorem exists_extraLines (h : ∀ header ∈ extraHeaders,
      (∀ c ∈ header.1, isKey c = true) ∧ ∀ c ∈ header.2, isValue c = true) :
    ∃ ls : List HeaderLine, ls.length = extraHeaders.length ∧
      ls.map HeaderLine.header = extraHeaders.map readBack ∧ ls.flatMap HeaderLine.bytes =
        extraHeaders.flatMap fun header => header.1 ++ text ": " ++ header.2 ++ text "\r\n" := by
  induction extraHeaders with
  | nil => exact ⟨[], rfl, rfl, rfl⟩
  | cons header extraHeaders ih =>
      obtain ⟨⟨hkey, hvalue⟩, hmore⟩ := List.forall_mem_cons.mp h
      obtain ⟨ls, hlen, hheaders, hls⟩ := ih hmore
      refine ⟨.write header.1 header.2 hkey hvalue :: ls, congrArg (· + 1) hlen,
        congrArg (_ :: ·) hheaders, ?_⟩
      rw [List.flatMap_cons, List.flatMap_cons, hls, HeaderLine.bytes_write]

/-- What a server finds in the request. -/
def requestHeaders (uri : Uri) (extraHeaders : List (List Byte × List Byte)) : List Header :=
  ⟨text "get", 47 :: (uri.path ++ text " HTTP/1.1")⟩ :: ⟨text "upgrade", text "websocket"⟩ ::
    ⟨text "connection", text "Upgrade"⟩ :: ⟨text "sec-websocket-key", randomKey⟩ ::
    readBack (text "Host", uri.hostname ++ text ":" ++ decimal uri.port) ::
    ⟨text "sec-websocket-version", text "13"⟩ :: extraHeaders.map readBack

theorem request_head (hpath : ∀ c ∈ uri.path, isValue c = true)
    (hhost : ∀ c ∈ uri.hostname, isValue c = true) (hextra : ∀ header ∈ extraHeaders,
      (∀ c ∈ header.1, isKey c = true) ∧ ∀ c ∈ header.2, isValue c = true)
    (hfew : extraHeaders.length ≤ 93) :
    Client.HeadOf (request uri extraHeaders) (requestHeaders uri extraHeaders) [] := by
  obtain ⟨ls, hlen, hheaders, hls⟩ := exists_extraLines hextra
  have hurl : ∀ c ∈ 47 :: (uri.path ++ text " HTTP/1.1"), isValue c = true :=
    List.forall_mem_cons.mpr ⟨rfl, List.forall_mem_append.mpr ⟨hpath, forall_of_all rfl⟩⟩
  have hname : ∀ c ∈ uri.hostname ++ text ":" ++ decimal uri.port, isValue c = true :=
    List.forall_mem_append.mpr
      ⟨List.forall_mem_append.mpr ⟨hhost, forall_of_all rfl⟩, isValue_decimal _⟩
  have hhead : ∀ c ∈ (47 :: (uri.path ++ text " HTTP/1.1")).head?, isGap c = false := by
    intro c hc
    cases hc
    rfl
  obtain ⟨lines, hlines⟩ : ∃ lines, lines =
      HeaderLine.first (text "GET") (47 :: (uri.path ++ text " HTTP/1.1")) (forall_of_all rfl)
        hhead hurl ::
      .literal "Upgrade" "websocket" rfl ::
      .literal "Connection" "Upgrade" rfl ::
      .write (text "Sec-WebSocket-Key") randomKey (forall_of_all rfl) (forall_of_all rfl) ::
      .write (text "Host") _ (forall_of_all rfl) hname ::
      .literal "Sec-WebSocket-Version" "13" rfl :: ls := ⟨_, rfl⟩
  refine getHeaders_iff.mpr ⟨lines, [], nofun, ?_, ?_, ?_, ?_⟩
  · have hget : text "GET /" = text "GET" ++ (text " " ++ [47]) := rfl
    have hversion : text " HTTP/1.1\r\n" = text " HTTP/1.1" ++ text "\r\n" := rfl
    have hkey : text "Sec-WebSocket-Key: " = text "Sec-WebSocket-Key" ++ text ": " := rfl
    have hend : text "\r\n" = [13, 10] := rfl
    rw [hlines]
    simp only [request, hget, hversion, text_upgrade, text_connection, hkey, text_host,
      text_version, List.flatMap_cons, HeaderLine.literal, HeaderLine.bytes_first,
      HeaderLine.bytes_write, hls,
      List.append_assoc, List.cons_append, List.nil_append]
    rw [hend]
  · rw [hlines, requestHeaders, ← hheaders]
    rfl
  · rw [hlines]
    simp only [List.length_cons, hlen, MAX_HEADERS]
    omega
  · rw [hlines]
    exact Nat.succ_pos _

/-! ### What a client finds -/

theorem isValue_base64 (src : List Byte) : ∀ c ∈ base64 src, isValue c = true := by
  have hall : ∀ c ∈ b64, isValue c = true := forall_of_all rfl
  have hchar : ∀ i, isValue (b64.getD i 0) = true := by
    intro i
    rw [List.getD_eq_getElem?_getD]
    cases hi : b64[i]? with
    | none => rfl
    | some c => exact hall c (List.mem_of_getElem? hi)
  have hgroup : ∀ x y z, ∀ c ∈ base64Group x y z, isValue c = true := by
    intro x y z
    rw [base64Group]
    simp only [List.forall_mem_cons, hchar, true_and]
    exact nofun
  simp only [base64, List.forall_mem_append, List.forall_mem_cons, hchar, true_and]
  exact ⟨⟨⟨⟨⟨⟨hgroup _ _ _, hgroup _ _ _⟩, hgroup _ _ _⟩, hgroup _ _ _⟩, hgroup _ _ _⟩,
    hgroup _ _ _⟩, rfl, nofun⟩

/-- The first character is one of the 64. -/
theorem dropWhile_base64 (src : List Byte) : (base64 src).dropWhile isGap = base64 src := by
  have hall : ∀ c ∈ b64, (!isGap c) = true := forall_of_all rfl
  have hmem : ∀ x : Byte, b64.getD (x &&& 63).toNat 0 ∈ b64 := by
    intro x
    have hlt : (x &&& 63).toNat < b64.length := by
      rw [UInt8.toNat_and]
      exact Nat.lt_succ_of_le Nat.and_le_right
    rw [List.getD_eq_getElem?_getD, List.getElem?_eq_getElem hlt]
    exact List.getElem_mem hlt
  have hcut : Cut isGap (base64 src) [] (base64 src) := by
    refine ⟨rfl, nofun, fun c hc => ?_⟩
    cases hc
    exact Bool.not_eq_true' _ ▸ hall _ (hmem _)
  exact hcut.dropWhile_eq

theorem exists_optionalLine (name : List Byte) {value : List Byte}
    (hname : ∀ c ∈ name, isKey c = true) (hvalue : ∀ c ∈ value, isValue c = true) :
    ∃ ls : List HeaderLine, ls.length ≤ 1 ∧
      ls.flatMap HeaderLine.bytes = optionalLine (name ++ text ": ") value := by
  rw [optionalLine]
  split
  · refine ⟨[.write name value hname hvalue], Nat.le_refl 1, ?_⟩
    rw [List.flatMap_singleton, HeaderLine.bytes_write]
  · exact ⟨[], Nat.zero_le 1, rfl⟩

/-- What a client finds at the front of the response. -/
def responseHeaders (digest : List Byte) : List Header :=
  [⟨text "http/1.1", text "101 Switching Protocols"⟩, ⟨text "upgrade", text "websocket"⟩,
    ⟨text "connection", text "Upgrade"⟩, ⟨text "sec-websocket-accept", base64 digest⟩]

theorem response_head (G : ServerGroup) (secKey : List Byte) {extensions subprotocol : List Byte}
    (hoffer : extensions = [] ∨ ∀ c ∈ G.generateOffer extensions, isValue c = true)
    (hsub : ∀ c ∈ subprotocol, isValue c = true) (b : List Byte) :
    ∃ more, Client.HeadOf (response G secKey extensions subprotocol ++ b)
      (responseHeaders (G.SHA1 (secKey ++ text "258EAFA5-E914-47DA-95CA-C5AB0DC85B11")) ++ more)
      b := by
  obtain ⟨digest, hdigest⟩ : ∃ digest, digest =
    G.SHA1 (secKey ++ text "258EAFA5-E914-47DA-95CA-C5AB0DC85B11") := ⟨_, rfl⟩
  have hext : ∀ c ∈ (if extensions ≠ [] then G.generateOffer extensions else []),
      isValue c = true := by
    split
    · next hext => exact hoffer.resolve_left hext
    · exact nofun
  have hfirst : ∀ c ∈ subprotocol.takeWhile (· ≠ 44), isValue c = true := fun c hc =>
    hsub c ((List.takeWhile_sublist _).subset hc)
  obtain ⟨extLines, hextLen, hextLines⟩ :=
    exists_optionalLine (text "Sec-WebSocket-Extensions") (forall_of_all rfl) hext
  obtain ⟨subLines, hsubLen, hsubLines⟩ :=
    exists_optionalLine (text "Sec-WebSocket-Protocol") (forall_of_all rfl) hfirst
  have hdigit : ∀ c ∈ (text "101 Switching Protocols").head?, isGap c = false := by
    intro c hc
    cases hc
    rfl
  obtain ⟨front, hfront⟩ : ∃ front, front =
      [HeaderLine.first (text "HTTP/1.1") (text "101 Switching Protocols") (forall_of_all rfl)
        hdigit (forall_of_all rfl),
        .literal "Upgrade" "websocket" rfl,
        .literal "Connection" "Upgrade" rfl,
        .write (text "Sec-WebSocket-Accept") (base64 digest) (forall_of_all rfl)
          (isValue_base64 _)] :=
    ⟨_, rfl⟩
  obtain ⟨last, hlast⟩ : ∃ last, last =
      [HeaderLine.literal "Sec-WebSocket-Version" "13" rfl,
        .literal "WebSocket-Server" "uWebSockets" rfl] := ⟨_, rfl⟩
  have hserver : text "WebSocket-Server: uWebSockets\r\n" =
      text "WebSocket-Server" ++ text ": " ++ text "uWebSockets" ++ text "\r\n" := rfl
  have hstatus : text "HTTP/1.1 101 Switching Protocols\r\n" =
      text "HTTP/1.1" ++ text " " ++ text "101 Switching Protocols" ++ text "\r\n" := rfl
  have haccept : text "Sec-WebSocket-Accept: " = text "Sec-WebSocket-Accept" ++ text ": " := rfl
  have hextName : text "Sec-WebSocket-Extensions: " =
      text "Sec-WebSocket-Extensions" ++ text ": " := rfl
  have hsubName : text "Sec-WebSocket-Protocol: " =
      text "Sec-WebSocket-Protocol" ++ text ": " := rfl
  have hend : text "\r\n" = [13, 10] := rfl
  rw [← hdigest]
  refine ⟨(extLines ++ (subLines ++ last)).map HeaderLine.header, getHeaders_iff.mpr
    ⟨front ++ (extLines ++ (subLines ++ last)), [], nofun, ?_, ?_, ?_, ?_⟩⟩
  · rw [hfront, hlast]
    simp only [response, ← hdigest, hstatus, text_upgrade, text_connection, haccept, text_version,
      hserver, hextName, hsubName, ← hextLines, ← hsubLines, List.flatMap_append, List.flatMap_cons,
      List.flatMap_nil, HeaderLine.literal, HeaderLine.bytes_first, HeaderLine.bytes_write,
      List.append_assoc, List.nil_append]
    rw [hend]
    rfl
  · have hmap : front.map HeaderLine.header = responseHeaders digest := by
      rw [hfront]
      simp only [List.map_cons, List.map_nil, HeaderLine.header_first, HeaderLine.header_write,
        HeaderLine.literal, dropWhile_base64]
      rfl
    exact ((List.map_append).trans (by rw [hmap])).symm
  · rw [hfront, hlast]
    simp only [List.length_append, List.length_cons, List.length_nil, MAX_HEADERS]
    omega
  · rw [hfront]
    exact Nat.succ_pos _

/-! ### The two of them -/

theorem getHeaders_values {n j : Nat} {b rest : List Byte} {hs : List Header}
    (h : (getHeaders n j b).2 = some (hs, rest)) : ∀ x ∈ hs, ∀ c ∈ x.value, isValue c = true := by
  obtain ⟨ls, -, -, -, rfl, -⟩ := getHeaders_iff.mp h
  intro x hx
  obtain ⟨l, -, rfl⟩ := List.mem_map.mp hx
  exact l.value_isValue

theorem headerValue_isValue {headers : List Header}
    (h : ∀ x ∈ headers, ∀ c ∈ x.value, isValue c = true) (key : String) :
    ∀ c ∈ headerValue headers key, isValue c = true := by
  rw [headerValue]
  cases hfind : getHeader headers (text key) with
  | none => exact nofun
  | some x => exact h x (List.mem_of_mem_tail (List.mem_of_find?_eq_some hfind))

/-- The request is for the path. -/
theorem serverUpgrade_request (G : ServerGroup) (uri : Uri)
    (extraHeaders : List (List Byte × List Byte)) :
    serverUpgrade G (requestHeaders uri extraHeaders) = some (47 :: uri.path, response G randomKey
      (headerValue (requestHeaders uri extraHeaders) "sec-websocket-extensions")
      (headerValue (requestHeaders uri extraHeaders) "sec-websocket-protocol")) := by
  have hkey : headerValue (requestHeaders uri extraHeaders) "sec-websocket-key" = randomKey := rfl
  have hup : (getHeader (requestHeaders uri extraHeaders) (text "upgrade")).isSome = true := rfl
  have hurl : (requestHeaders uri extraHeaders).head?.map Header.value =
      some (47 :: (uri.path ++ text " HTTP/1.1")) := rfl
  have hkeyLen : randomKey.length = 24 := by decide
  have htake : (47 :: (uri.path ++ text " HTTP/1.1")).take
      ((47 :: (uri.path ++ text " HTTP/1.1")).length - 9) = 47 :: uri.path := by
    have hlen : (47 :: (uri.path ++ text " HTTP/1.1")).length - 9 = (47 :: uri.path).length := by
      rw [List.length_cons, List.length_append, List.length_cons]
      rfl
    rw [hlen, ← List.cons_append]
    exact List.take_left
  simp only [serverUpgrade, hkey, hurl, hup, Option.getD_some, hkeyLen, and_self, if_true, htake]

/-- A server that takes part in no extension.  `SHA1` is that of the key of every request. -/
def plainServer : ServerGroup where
  SHA1 _ := [29, 41, 171, 115, 75, 12, 149, 133, 36, 0, 105, 166, 228, 227, 233, 27, 97, 218, 25,
    105]
  generateOffer _ := []

/-- `ws://pb.test/game`. -/
def gameUri : Uri := ⟨false, text "pb.test", 80, text "game"⟩

theorem gameUri_path : ∀ c ∈ gameUri.path, isValue c = true := forall_of_all rfl

theorem gameUri_hostname : ∀ c ∈ gameUri.hostname, isValue c = true := forall_of_all rfl

/-- Asked for besides. -/
def pbProtocol : List Byte × List Byte := (text "Sec-WebSocket-Protocol", text "pb")

theorem length_base64 (src : List Byte) : (base64 src).length = 28 := by
  simp only [base64, base64Group, List.length_append, List.length_cons, List.length_nil]

theorem length_response (G : ServerGroup) (secKey : List Byte) :
    (response G secKey [] []).length = 187 := by
  simp only [response, optionalLine, List.takeWhile_nil, ne_eq, not_true_eq_false, false_and,
    if_false, List.length_append, List.length_nil, length_base64]
  rfl

/-- What the frames behind an answer carry arrives. -/
theorem seen_response (G : ServerGroup) (C : ClientGroup) (places : Layout)
    (hpad : CONSUME_PRE_PADDING false ≤ places.recvBuffer) {sent : List (Mask × Frame)}
    {ms : List (List Byte × Byte)} (hcarries : Carries none (sent.map Prod.snd) ms)
    (hmax : ∀ f ∈ sent, f.2.data.length ≤ C.maxPayload.toNat)
    (hfits : 187 + (WebSocket.framesBytes false sent).length ≤ MAX_HEADER_BUFFER_SIZE) :
    ∃ headers, Client.HeadOf (response G randomKey [] [] ++ WebSocket.framesBytes false sent)
        headers (WebSocket.framesBytes false sent) ∧
      ∀ recvs, WebSocket.stream places.recvBuffer recvs =
          response G randomKey [] [] ++ WebSocket.framesBytes false sent →
        (Client.run C places recvs).seen =
          .open (Channel.arriveAll C.toGroup ms ((C.accept headers).foldl Channel.call {})) := by
  have hsub : ∀ c ∈ ([] : List Byte), isValue c = true := nofun
  obtain ⟨more, hresponse⟩ := response_head G randomKey (Or.inl rfl) hsub
    (WebSocket.framesBytes false sent)
  refine ⟨_, hresponse, fun recvs hrecvs => ?_⟩
  have hlen : (WebSocket.stream places.recvBuffer recvs).length ≤ MAX_HEADER_BUFFER_SIZE := by
    rw [hrecvs, List.length_append, length_response]
    exact hfits
  rw [(Client.received_run hpad recvs).seen_eq (Or.inl hlen), hrecvs,
    Client.expected_upgraded hresponse rfl]
  exact congrArg Seen.open (Client.drain_opened hcarries hmax _)

end

end PBTransfor.Uws
