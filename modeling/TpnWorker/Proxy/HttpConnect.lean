import TpnWorker.Lib.Lines
import TpnWorker.Net.Ip
import TpnWorker.Proxy.Socks5

/-! The HTTP CONNECT proxy (`src/proxy/http_connect.rs`), up to the connection to the target. -/

namespace TpnWorker
open Session Lines

def maxHeaderSize : ℕ := 16 * 1024

/-- The end of a header, `\r\n\r\n`. -/
def headerEnd : List UInt8 := [13, 10, 13, 10]

/-- Read bytes until they end a header, given the bytes that were read before. -/
def readHeadersFrom (buf sent : List UInt8) : List UInt8 → EStateM.Result ConnectionError (Exchange UInt8) (List UInt8)
  | [] => .error .unexpectedEof ⟨[], sent⟩
  | byte :: unread =>
    let buf := buf ++ [byte]
    if buf.length > maxHeaderSize then .error (.bail s!"Headers exceed {maxHeaderSize} bytes") ⟨unread, sent⟩
    else if headerEnd.isSuffixOf buf then .ok buf ⟨unread, sent⟩
    else readHeadersFrom buf sent unread

/-- Read HTTP headers until `\r\n\r\n`, with size limit. -/
def readHeaders : Connection (List UInt8) := fun s => readHeadersFrom [] s.sent s.unread

/-- `to_uppercase` on ASCII, which decides whether the result is `CONNECT`. -/
def toUppercase (text : List Char) : List Char := text.map Char.toUpper

/-- `to_lowercase` on ASCII, which decides whether the result starts with `proxy-authorization:`. -/
def toLowercase (text : List Char) : List Char := text.map Char.toLower

def splitWhitespace (text : List Char) : List (List Char) := (text.splitOnP isWhiteSpace).filter fun part => decide (part ≠ [])

/-- The text after a prefix. -/
def stripPrefix? (lead text : List Char) : Option (List Char) :=
  if lead.isPrefixOf text then some (text.drop lead.length) else none

/-- Parse `Basic <base64(user:pass)>` into username and password. -/
def parseBasicAuth (value : Option (List Char)) : Option (String × String) := do
  let value ← value
  let value ← (stripPrefix? "Basic ".toList value).or (stripPrefix? "basic ".toList value)
  let decoded ← Base64.decodeChars (trim value)
  let decoded ← Utf8.decode decoded
  let (user, pass) ← splitOnce ':' decoded.toList
  some (String.ofList user, String.ofList pass)

def isProxyAuthorization (line : List Char) : Bool := "proxy-authorization:".toList.isPrefixOf (toLowercase line)

/-- The value of the `Proxy-Authorization` header. -/
def authValue (headers : List Char) : Option (List Char) :=
  (((lines headers).find? isProxyAuthorization).bind (splitOnce ':')).map fun (_, value) => trim value

def badRequest : List UInt8 := textBytes "HTTP/1.1 400 Bad Request\r\n\r\n"

def authenticationRequired : List UInt8 :=
  textBytes "HTTP/1.1 407 Proxy Authentication Required\r\nProxy-Authenticate: Basic realm=\"TPN Proxy\"\r\n\r\n"

/-- Headers and authentication; the result is the address to connect to. -/
def connectRequest (credentials : Credentials) (peer : String) : Connection String := do
  let headers ← readHeaders
  let headersStr := (Utf8.lossy headers).toList
  let firstLine := (lines headersStr).headD []
  let parts := splitWhitespace firstLine
  if parts.length < 3 ∨ toUppercase (parts.headD []) ≠ "CONNECT".toList then do
    writeAll badRequest
    bail s!"Invalid request: {String.ofList firstLine}"
  else
    let target := String.ofList (parts.getD 1 [])
    match parseBasicAuth (authValue headersStr) with
    | none => do
      writeAll authenticationRequired
      bail s!"Missing or invalid Proxy-Authorization from {peer}"
    | some (username, password) =>
      if ¬authenticate credentials username password then do
        writeAll authenticationRequired
        bail s!"Authentication failed for {username} from {peer}"
      else pure target

/-! ### The header of a client -/

/-- A line of a header. -/
structure HeaderLine where
  bytes : List UInt8
  ne_nil : bytes ≠ []
  no_cr : 13 ∉ bytes
  no_lf : 10 ∉ bytes

namespace HeaderLine

def text (line : HeaderLine) : List Char := (Utf8.lossy line.bytes).toList

/-- The line of a text. -/
def ofText (text : List Char) (ne_nil : text ≠ []) (no_cr : '\r' ∉ text) (no_lf : '\n' ∉ text) : HeaderLine where
  bytes := textBytes (String.ofList text)
  ne_nil := by
    intro hnil
    have h := Utf8.lossy_textBytes (String.ofList text)
    rw [hnil] at h
    exact ne_nil (String.ofList_injective h).symm
  no_cr := by
    rw [← Utf8.mem_lossy_iff (c := '\r') (by decide) (by decide), Utf8.lossy_textBytes, String.toList_ofList]
    exact no_cr
  no_lf := by
    rw [← Utf8.mem_lossy_iff (c := '\n') (by decide) (by decide), Utf8.lossy_textBytes, String.toList_ofList]
    exact no_lf

@[simp] theorem text_ofText {text : List Char} {ne_nil : text ≠ []} {no_cr : '\r' ∉ text} {no_lf : '\n' ∉ text} :
    (ofText text ne_nil no_cr no_lf).text = text := by
  rw [HeaderLine.text, ofText, Utf8.lossy_textBytes, String.toList_ofList]

end HeaderLine

/-- The lines, each ended by `\r\n`, and an empty one. -/
def headerBytes (ls : List HeaderLine) : List UInt8 := (ls.flatMap fun line => line.bytes ++ [13, 10]) ++ [13, 10]

section Reading
variable {buf sent l rest : List UInt8} {byte : UInt8} {ls : List HeaderLine} {line : HeaderLine}

theorem headerEnd_suffix (h : headerEnd.isSuffixOf (buf ++ [byte]) = true) : byte = 10 ∧ [13, 10, 13] <:+ buf := by
  rw [List.isSuffixOf_iff_suffix] at h
  obtain ⟨t, ht⟩ := h
  have hsplit : (t ++ [13, 10, 13]) ++ [10] = buf ++ [byte] := by simpa [headerEnd] using ht
  obtain ⟨hbuf, hbyte⟩ := List.append_inj' hsplit rfl
  exact ⟨(List.cons.inj hbyte).1.symm, t, hbuf⟩

theorem readHeadersFrom_cons (hsize : (buf ++ [byte]).length ≤ maxHeaderSize)
    (h : ¬headerEnd.isSuffixOf (buf ++ [byte]) = true) :
    readHeadersFrom buf sent (byte :: rest) = readHeadersFrom (buf ++ [byte]) sent rest := by
  simp only [readHeadersFrom]
  rw [if_neg (Nat.not_lt.mpr hsize), if_neg h]

theorem readHeadersFrom_append (hsize : (buf ++ l).length ≤ maxHeaderSize) (hl : 10 ∉ l) :
    readHeadersFrom buf sent (l ++ rest) = readHeadersFrom (buf ++ l) sent rest := by
  induction l generalizing buf with
  | nil => rw [List.nil_append, List.append_nil]
  | cons byte l ih =>
    rw [← List.singleton_append, ← List.append_assoc] at hsize
    obtain ⟨hbyte, hl⟩ := not_or.mp (fun h => hl (List.mem_cons.mpr h))
    rw [List.cons_append, readHeadersFrom_cons, ih hsize hl, List.append_assoc, List.singleton_append]
    · rw [List.length_append] at hsize
      exact Nat.le_of_add_right_le hsize
    · exact fun h => hbyte (headerEnd_suffix h).1.symm

theorem readHeadersFrom_line (hsize : (buf ++ line.bytes ++ [13, 10]).length ≤ maxHeaderSize) :
    readHeadersFrom buf sent (line.bytes ++ 13 :: 10 :: rest) =
      readHeadersFrom (buf ++ line.bytes ++ [13, 10]) sent rest := by
  have hlf : 10 ∉ line.bytes ++ [13] := by
    simpa using line.no_lf
  have hassoc : buf ++ line.bytes ++ [13, 10] = buf ++ (line.bytes ++ [13]) ++ [10] := by simp
  rw [hassoc] at hsize ⊢
  rw [List.append_cons line.bytes, readHeadersFrom_append (by simp at hsize ⊢; omega) hlf, readHeadersFrom_cons hsize]
  intro h
  obtain ⟨-, t, ht⟩ := headerEnd_suffix h
  have hend : t ++ [13] ++ [10] = buf ++ line.bytes := by
    have hsplit : (t ++ [13] ++ [10]) ++ [13] = (buf ++ line.bytes) ++ [13] := by simpa using ht
    exact (List.append_inj' hsplit rfl).1
  obtain ⟨init, last, hline⟩ : ∃ init last, line.bytes = init ++ [last] :=
    ⟨_, _, (List.dropLast_concat_getLast line.ne_nil).symm⟩
  rw [hline, ← List.append_assoc] at hend
  have hlast := (List.cons.inj (List.append_inj' hend rfl).2).1
  exact line.no_lf (hline ▸ List.mem_append_right _ (hlast ▸ List.mem_singleton_self _))

theorem readHeadersFrom_lines (hsize : (buf ++ headerBytes ls).length ≤ maxHeaderSize) (hbuf : [13, 10] <:+ buf) :
    readHeadersFrom buf sent (headerBytes ls ++ rest) = .ok (buf ++ headerBytes ls) ⟨rest, sent⟩ := by
  induction ls generalizing buf with
  | nil =>
    obtain ⟨t, rfl⟩ := hbuf
    have hend : headerEnd.isSuffixOf (t ++ [13, 10] ++ [13] ++ [10]) = true :=
      List.isSuffixOf_iff_suffix.mpr ⟨t, by simp [headerEnd]⟩
    simp only [headerBytes, List.flatMap_nil, List.nil_append, List.cons_append] at hsize ⊢
    rw [readHeadersFrom_cons (by simp at hsize ⊢; omega) fun h => absurd (headerEnd_suffix h).1 (by decide)]
    simp only [readHeadersFrom]
    rw [if_neg (by simp at hsize ⊢; omega), if_pos hend]
    simp
  | cons line ls ih =>
    have hcons : headerBytes (line :: ls) = line.bytes ++ [13, 10] ++ headerBytes ls := by simp [headerBytes]
    rw [hcons] at hsize ⊢
    have hassoc : line.bytes ++ [13, 10] ++ headerBytes ls ++ rest =
        line.bytes ++ 13 :: 10 :: (headerBytes ls ++ rest) := by simp
    rw [hassoc, readHeadersFrom_line (by simp at hsize ⊢; omega), ih]
    · simp
    · simpa using hsize
    · exact List.suffix_append _ _

/-- A header with a line is read to its end. -/
theorem readHeaders_headerBytes (hsize : (headerBytes (line :: ls)).length ≤ maxHeaderSize) :
    readHeaders ⟨headerBytes (line :: ls) ++ rest, sent⟩ = .ok (headerBytes (line :: ls)) ⟨rest, sent⟩ := by
  have hcons : headerBytes (line :: ls) = line.bytes ++ [13, 10] ++ headerBytes ls := by simp [headerBytes]
  rw [hcons] at hsize ⊢
  have hassoc : line.bytes ++ [13, 10] ++ headerBytes ls ++ rest =
      line.bytes ++ 13 :: 10 :: (headerBytes ls ++ rest) := by simp
  rw [readHeaders, hassoc, readHeadersFrom_line (by simp at hsize ⊢; omega), List.nil_append,
    readHeadersFrom_lines hsize (List.suffix_append _ _)]

theorem lines_headerBytes : lines (Utf8.lossy (headerBytes ls)).toList = ls.map HeaderLine.text ++ [[]] := by
  have hstep : ∀ (l : List UInt8) rest, '\n' ∉ (Utf8.lossy l).toList → lines (Utf8.lossy (l ++ 13 :: 10 :: rest)).toList =
      (Utf8.lossy l).toList :: lines (Utf8.lossy rest).toList := by
    intro l rest hl
    have hcr : '\n' ∉ (Utf8.lossy l).toList ++ ['\r'] := by simpa using hl
    rw [Utf8.toList_lossy_append (c := '\r') (by decide) (by decide), ← List.nil_append (10 :: rest),
      Utf8.toList_lossy_append (c := '\n') (by decide) (by decide)]
    have hassoc : (Utf8.lossy l).toList ++ '\r' :: ((Utf8.lossy []).toList ++ '\n' :: (Utf8.lossy rest).toList) =
        (Utf8.lossy l).toList ++ ['\r'] ++ '\n' :: (Utf8.lossy rest).toList := by simp [Utf8.lossy]
    rw [hassoc, lines_cons hcr, stripCr, List.getLast?_concat, if_pos rfl, List.dropLast_concat]
  induction ls with
  | nil =>
    have hnil := hstep [] [] (by decide)
    rw [List.nil_append] at hnil
    exact hnil
  | cons line ls ih =>
    have hcons : headerBytes (line :: ls) = line.bytes ++ 13 :: 10 :: headerBytes ls := by simp [headerBytes]
    have hline : '\n' ∉ (Utf8.lossy line.bytes).toList := by
      rw [Utf8.mem_lossy_iff (x := 10) (by decide) (by decide)]
      exact line.no_lf
    rw [hcons, hstep _ _ hline, ih]
    rfl

end Reading

/-- A user that both proxies can be asked for: the parts fit in the fields of SOCKS5, and the username ends at the first
    colon. -/
structure ProxyUser where
  username : String
  password : String
  no_colon : ':' ∉ username.toList
  username_short : (textBytes username).length ≤ 255
  password_short : (textBytes password).length ≤ 255

namespace ProxyUser

/-- The base64 text of `username:password`. -/
def token (user : ProxyUser) : List Char := Base64.encodeChars (textBytes (user.username ++ ":" ++ user.password))

/-- The value of the header, `Basic` and the token. -/
def basicValue (user : ProxyUser) : List Char := "Basic ".toList ++ user.token

theorem basicValue_eq (user : ProxyUser) : user.basicValue = "Basic ".toList ++ user.token := rfl

/-- The user as a client of the SOCKS5 proxy. -/
def socksClient (user : ProxyUser) (methods : ShortField) (offers : authUsernamePassword ∈ methods.bytes) : SocksClient :=
  ⟨methods, ⟨textBytes user.username, user.username_short⟩, ⟨textBytes user.password, user.password_short⟩, offers⟩

end ProxyUser

/-- A text of visible ASCII characters. -/
structure HeaderToken where
  text : List Char
  ne_nil : text ≠ []
  visible : text.all (fun c => decide (33 ≤ c.toNat ∧ c.toNat ≤ 126)) = true

def connectMethod : HeaderToken := ⟨"CONNECT".toList, by decide, by decide⟩

/-- Optional blanks around a value. -/
structure Blanks where
  text : List Char
  blank : text.all (fun c => c == ' ' || c == '\t') = true

/-- The header of a CONNECT request with one `Proxy-Authorization` line, its name in any case, between any other lines. -/
structure ConnectHead where
  target : HeaderToken
  version : HeaderToken
  before : List HeaderLine
  name : List Char
  lead : Blanks
  tail : Blanks
  after : List HeaderLine
  name_eq : toLowercase name = "proxy-authorization".toList
  single : (before ++ after).all (fun line => !isProxyAuthorization line.text) = true

section Authorization
variable {user : ProxyUser} {head : ConnectHead}

theorem HeaderToken.plain (t : HeaderToken) {c : Char} (h : c ∈ t.text) : isWhiteSpace c = false := by
  have hc := of_decide_eq_true (List.all_eq_true.mp t.visible c h)
  simp only [isWhiteSpace, decide_eq_false_iff_not]
  omega

theorem Blanks.white (b : Blanks) {c : Char} (h : c ∈ b.text) : isWhiteSpace c = true := by
  have hc := List.all_eq_true.mp b.blank c h
  simp only [Bool.or_eq_true, beq_iff_eq] at hc
  rcases hc with rfl | rfl <;> decide

theorem not_mem_of_plain {text : List Char} (h : ∀ c ∈ text, isWhiteSpace c = false) : '\r' ∉ text ∧ '\n' ∉ text := by
  constructor
  · exact fun hmem => absurd (h _ hmem) (by decide)
  · exact fun hmem => absurd (h _ hmem) (by decide)

theorem digit_plain {n : ℕ} (h : n < 64) : isWhiteSpace (Base64.digit n) = false := by
  have all : ∀ i : Fin 64, isWhiteSpace (Base64.digit i) = false := by decide
  exact all ⟨n, h⟩

theorem token_plain {c : Char} (h : c ∈ user.token) : isWhiteSpace c = false := by
  rcases Base64.mem_encodeChars h with rfl | ⟨n, hn, rfl⟩
  · decide
  · exact digit_plain hn

theorem textBytes_append (s t : String) : textBytes (s ++ t) = textBytes s ++ textBytes t := by
  simp [textBytes]

theorem token_ne_nil : user.token ≠ [] := by
  refine Base64.encodeChars_ne_nil fun h => ?_
  rw [textBytes_append, textBytes_append, List.append_assoc, List.append_eq_nil_iff] at h
  cases h.2

/-- The value is parsed to the user that it was built from. -/
theorem parseBasicAuth_basicValue : parseBasicAuth (some user.basicValue) = some (user.username, user.password) := by
  have hstrip : stripPrefix? "Basic ".toList user.basicValue = some user.token := by
    rw [stripPrefix?, ProxyUser.basicValue_eq, if_pos (List.isPrefixOf_iff_prefix.mpr (List.prefix_append _ _)),
      List.drop_left]
  have hdecode : Base64.decodeChars (trim user.token) = some (textBytes (user.username ++ ":" ++ user.password)) := by
    rw [trim_of_plain fun c hc => token_plain hc]
    exact Base64.decodeChars_encodeChars _
  have hsplit : splitOnce ':' (user.username ++ ":" ++ user.password).toList =
      some (user.username.toList, user.password.toList) := by
    have htext : (user.username ++ ":" ++ user.password).toList = user.username.toList ++ ':' :: user.password.toList := by
      simp
    rw [htext, splitOnce_append user.no_colon]
  simp only [parseBasicAuth, Option.bind_eq_bind, Option.bind_some, hstrip, Option.some_or, hdecode,
    Utf8.decode_textBytes, hsplit, String.ofList_toList]

theorem trim_basicValue {lead tail : Blanks} : trim (lead.text ++ user.basicValue ++ tail.text) = user.basicValue := by
  refine trim_append (fun c hc => lead.white hc) (fun c hc => tail.white hc) ?_ ?_
  · exact List.dropWhile_cons_of_neg (by decide)
  · obtain ⟨init, last, htoken⟩ : ∃ init last, user.token = init ++ [last] :=
      ⟨_, _, (List.dropLast_concat_getLast token_ne_nil).symm⟩
    have hmem : last ∈ user.token := by simp [htoken]
    have hlast := token_plain hmem
    rw [ProxyUser.basicValue_eq, htoken, ← List.append_assoc, List.reverse_concat]
    exact List.dropWhile_cons_of_neg (Bool.eq_false_iff.mp hlast)

namespace ConnectHead

def requestLine (head : ConnectHead) : List Char :=
  connectMethod.text ++ ' ' :: (head.target.text ++ ' ' :: head.version.text)

def authorization (head : ConnectHead) (user : ProxyUser) : List Char :=
  head.name ++ ':' :: (head.lead.text ++ user.basicValue ++ head.tail.text)

theorem splitWhitespace_requestLine :
    splitWhitespace head.requestLine = [connectMethod.text, head.target.text, head.version.text] := by
  rw [splitWhitespace, requestLine,
    List.splitOnP_append_cons_of_forall_mem (fun _ hc => connectMethod.plain hc) ' ' (by decide),
    List.splitOnP_append_cons_of_forall_mem (fun _ hc => head.target.plain hc) ' ' (by decide),
    List.splitOnP_eq_singleton (fun _ hc => head.version.plain hc)]
  simp [connectMethod.ne_nil, head.target.ne_nil, head.version.ne_nil]

theorem isProxyAuthorization_authorization : isProxyAuthorization (head.authorization user) = true := by
  have hlower : toLowercase (head.authorization user) = "proxy-authorization:".toList ++
      toLowercase (head.lead.text ++ user.basicValue ++ head.tail.text) := by
    have hcolon : "proxy-authorization:".toList = "proxy-authorization".toList ++ [':'] := by decide
    rw [authorization, toLowercase, List.map_append, List.map_cons, ← toLowercase, head.name_eq, hcolon, List.append_assoc]
    rfl
  rw [isProxyAuthorization, hlower]
  exact List.isPrefixOf_iff_prefix.mpr (List.prefix_append _ _)

theorem colon_notMem_name : ':' ∉ head.name := by
  intro h
  have hlower : ':' ∈ toLowercase head.name := List.mem_map.mpr ⟨':', h, by decide⟩
  rw [head.name_eq] at hlower
  exact absurd hlower (by decide)

theorem not_isProxyAuthorization_requestLine : isProxyAuthorization head.requestLine = false := by
  rfl

theorem requestLine_breaks : '\r' ∉ head.requestLine ∧ '\n' ∉ head.requestLine := by
  have hmethod := not_mem_of_plain fun _ hc => connectMethod.plain hc
  have htarget := not_mem_of_plain fun _ hc => head.target.plain hc
  have hversion := not_mem_of_plain fun _ hc => head.version.plain hc
  simp [requestLine, hmethod, htarget, hversion]

theorem notMem_authorization {c : Char} (hname : c.toLower ∉ "proxy-authorization".toList) (hcolon : c ≠ ':')
    (hblank : c ≠ ' ' ∧ c ≠ '\t') (hscheme : c ∉ "Basic ".toList) (hwhite : isWhiteSpace c = true) :
    c ∉ head.authorization user := by
  have hname : c ∉ head.name := fun h => hname (head.name_eq ▸ List.mem_map.mpr ⟨c, h, rfl⟩)
  have hblanks : ∀ b : Blanks, c ∉ b.text := by
    intro b h
    have hc := List.all_eq_true.mp b.blank c h
    simp [hblank] at hc
  have htoken : c ∉ user.token := fun h => Bool.false_ne_true ((token_plain h).symm.trans hwhite)
  simp only [authorization, ProxyUser.basicValue_eq, List.mem_append, List.mem_cons, not_or]
  exact ⟨hname, hcolon, ⟨hblanks _, hscheme, htoken⟩, hblanks _⟩

theorem authorization_breaks : '\r' ∉ head.authorization user ∧ '\n' ∉ head.authorization user := by
  constructor <;> exact notMem_authorization (by decide) (by decide) (by decide) (by decide) (by decide)

theorem requestLine_ne_nil : head.requestLine ≠ [] := List.append_ne_nil_of_right_ne_nil _ (List.cons_ne_nil _ _)

theorem authorization_ne_nil : head.authorization user ≠ [] := List.append_ne_nil_of_right_ne_nil _ (List.cons_ne_nil _ _)

/-- The lines of the header. -/
def lines (head : ConnectHead) (user : ProxyUser) : List HeaderLine :=
  .ofText head.requestLine requestLine_ne_nil requestLine_breaks.1 requestLine_breaks.2 ::
    (head.before ++ .ofText (head.authorization user) authorization_ne_nil authorization_breaks.1 authorization_breaks.2 ::
      head.after)

def bytes (head : ConnectHead) (user : ProxyUser) : List UInt8 := headerBytes (head.lines user)

theorem lines_bytes : Lines.lines (Utf8.lossy (head.bytes user)).toList =
    head.requestLine ::
      (head.before.map HeaderLine.text ++ head.authorization user :: (head.after.map HeaderLine.text ++ [[]])) := by
  rw [bytes, lines_headerBytes, lines, List.map_cons, List.map_append, List.map_cons, HeaderLine.text_ofText,
    HeaderLine.text_ofText, List.cons_append, List.append_assoc, List.cons_append]

/-- The header with the name is found, and its value is the one that was put there. -/
theorem authValue_bytes : authValue (Utf8.lossy (head.bytes user)).toList = some user.basicValue := by
  have hbefore : (head.before.map HeaderLine.text).find? isProxyAuthorization = none := by
    rw [List.find?_eq_none]
    intro text htext
    obtain ⟨line, hline, rfl⟩ := List.mem_map.mp htext
    have hother := List.all_eq_true.mp head.single line (List.mem_append_left _ hline)
    simpa using hother
  rw [authValue, lines_bytes, List.find?_cons_of_neg (Bool.eq_false_iff.mp not_isProxyAuthorization_requestLine),
    List.find?_append, hbefore, Option.none_or, List.find?_cons_of_pos isProxyAuthorization_authorization,
    Option.bind_some, authorization, splitOnce_append colon_notMem_name, Option.map_some]
  exact congrArg some trim_basicValue

end ConnectHead

/-- A request is answered as the store answers for its user. -/
theorem connectRequest_bytes {credentials : Credentials} {peer : String} {rest sent : List UInt8}
    (hsize : (head.bytes user).length ≤ maxHeaderSize) :
    connectRequest credentials peer ⟨head.bytes user ++ rest, sent⟩ =
      if authenticate credentials user.username user.password then .ok (String.ofList head.target.text) ⟨rest, sent⟩
      else .error (.bail s!"Authentication failed for {user.username} from {peer}") ⟨rest, sent ++ authenticationRequired⟩ := by
  have hread : readHeaders ⟨head.bytes user ++ rest, sent⟩ = .ok (head.bytes user) ⟨rest, sent⟩ :=
    readHeaders_headerBytes hsize
  have hupper : toUppercase connectMethod.text = "CONNECT".toList := by decide
  rw [connectRequest, bind_of_ok hread]
  simp only [ConnectHead.lines_bytes, List.headD_cons, ConnectHead.splitWhitespace_requestLine, hupper,
    ConnectHead.authValue_bytes, parseBasicAuth_basicValue]
  rw [if_neg (by simp)]
  by_cases hauth : authenticate credentials user.username user.password = true
  · rw [if_neg (not_not.mpr hauth), if_pos hauth]
    rfl
  · rw [if_pos hauth, if_neg hauth]
    rfl

end Authorization

end TpnWorker
