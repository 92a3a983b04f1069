import TpnWorker.Net.Dns

/-! The hostname of a URL. The extraction knows a scheme, a port and a path, but no user information in front of the host: it
    stops at the first colon or slash behind the scheme. -/

namespace TpnWorker
open Pieces

/-- The characters that separate the parts of a URL. -/
def genDelims : List Char := [':', '/', '?', '#', '[', ']', '@']

/-- A URL by its parts. The host is a registered name or a dotted address; the path is empty or starts with a slash, and may
    contain anything behind it. -/
structure Url where
  scheme : List Char
  userinfo : Option (List Char)
  host : List Char
  port : Option (List Char)
  path : List Char
  scheme_plain : ∀ c ∈ scheme, c ∉ genDelims
  userinfo_plain : ∀ info ∈ userinfo, ∀ c ∈ info, c = ':' ∨ c ∉ genDelims
  host_plain : ∀ c ∈ host, c ∉ genDelims
  port_digits : ∀ digits ∈ port, ∀ c ∈ digits, c.isDigit = true
  path_start : path = [] ∨ path.head? = some '/'

namespace Url

/-- `userinfo@` -/
def userinfoText (u : Url) : List Char := (u.userinfo.map (· ++ ['@'])).getD []

/-- `:port` -/
def portText (u : Url) : List Char := (u.port.map (':' :: ·)).getD []

/-- `scheme://[userinfo@]host[:port][path]` -/
def text (u : Url) : List Char := u.scheme ++ schemeEnd ++ (u.userinfoText ++ (u.host ++ (u.portText ++ u.path)))

/-- The host of the URL is found in the URL, alone and with a port, and so the URL is resolved as its host. -/
structure HostFound (u : Url) : Prop where
  url : extractHostname u.text = u.host
  alone : extractHostname u.host = u.host
  with_port : ∀ digits : List Char, (∀ c ∈ digits, c.isDigit = true) → extractHostname (u.host ++ ':' :: digits) = u.host
  resolved : ∀ env cache, resolveDomainToIpv4s env cache (String.ofList u.text) =
    resolveDomainToIpv4s env cache (String.ofList u.host)

/-- There is no user information, or the part of it in front of its first colon is the host again. -/
def NoOtherUser (u : Url) : Prop := ∀ info, u.userinfo = some info → u.host ++ [':'] <+: info

end Url

/-! ### Where the extraction stops -/

/-- A character at which no delimiter of the host is reached. -/
def inHost (c : Char) : Bool := decide (c ≠ ':' ∧ c ≠ '/')

section Extraction
variable {scheme host info rest text : List Char} {c : Char}

theorem takeWhile_append_stop {p : Char → Bool} (h : p c = false) : (text ++ c :: rest).takeWhile p = text.takeWhile p := by
  rw [List.takeWhile_append]
  split
  · next hlen =>
    have hall := (List.takeWhile_prefix p).eq_of_length hlen
    rw [List.takeWhile_cons_of_neg (by rw [h]; exact Bool.false_ne_true), List.append_nil, hall]
  · rfl

theorem firstPiece_firstPiece (text : List Char) : firstPiece ':' (firstPiece '/' text) = text.takeWhile inHost := by
  rw [firstPiece_eq, firstPiece_eq, List.takeWhile_takeWhile]
  congr 1
  funext c
  simp [inHost]

/-- Behind a scheme the hostname is what stands in front of the first colon or slash. -/
theorem extractHostname_scheme (h : ':' ∉ scheme) : extractHostname (scheme ++ schemeEnd ++ rest) = rest.takeWhile inHost := by
  have hmid : containsText schemeEnd (scheme ++ schemeEnd ++ rest) = true := containsText_iff.mpr ⟨scheme, rest, rfl⟩
  obtain ⟨piece, pieces, hpieces, hpiece⟩ := exists_splitAtText schemeEnd rest
  have hsecond : (splitAtText schemeEnd (scheme ++ schemeEnd ++ rest))[1]? = some piece := by
    rw [schemeEnd, splitAtText_append h, ← schemeEnd, hpieces]
    rfl
  simp only [extractHostname, if_pos hmid, hsecond, firstPiece_firstPiece]
  rcases hpiece with rfl | ⟨tail, rfl⟩
  · rfl
  · have hstop : inHost ':' = false := rfl
    rw [List.append_assoc, schemeEnd, List.cons_append, takeWhile_append_stop hstop]

theorem inHost_of_plain (h : ∀ c ∈ host, c ∉ genDelims) : ∀ c ∈ host, inHost c = true := by
  intro c hc
  have hnot := h c hc
  simp only [genDelims, List.mem_cons, not_or] at hnot
  exact decide_eq_true ⟨hnot.1, hnot.2.1⟩

/-- Without a scheme it is what stands in front of the first colon. -/
theorem extractHostname_bare (h : '/' ∉ text) : extractHostname text = firstPiece ':' text := by
  have hmid : ¬containsText schemeEnd text = true := fun hmid => h ((containsText_iff.mp hmid).subset (by decide))
  simp only [extractHostname, if_neg hmid]

theorem takeWhile_inHost (h : ∀ c ∈ host, inHost c = true) (hrest : ∀ c ∈ rest.head?, inHost c = false) :
    (host ++ rest).takeWhile inHost = host := by
  rw [List.takeWhile_append_of_pos h]
  cases rest with
  | nil => rw [List.takeWhile_nil, List.append_nil]
  | cons c rest => rw [List.takeWhile_cons_of_neg (by rw [hrest c rfl]; exact Bool.false_ne_true), List.append_nil]

/-- With user information in front of the host, it is the user's name or the whole text up to the port. -/
theorem takeWhile_userinfo (hinfo : ∀ c ∈ info, c = ':' ∨ c ∉ genDelims) (hhost : ∀ c ∈ host, inHost c = true)
    (hrest : ∀ c ∈ rest.head?, inHost c = false) :
    (info ++ '@' :: (host ++ rest)).takeWhile inHost = host ↔ host ++ [':'] <+: info := by
  have hcolon : ∀ c ∈ info, inHost c = false → c = ':' := by
    intro c hc hstop
    rcases hinfo c hc with heq | hplain
    · exact heq
    · simp only [genDelims, List.mem_cons, not_or] at hplain
      simp [inHost, hplain.1, hplain.2.1] at hstop
  by_cases hall : ∀ c ∈ info, inHost c = true
  · have htake : (info ++ '@' :: (host ++ rest)).takeWhile inHost = info ++ '@' :: host := by
      rw [List.takeWhile_append_of_pos hall, List.takeWhile_cons_of_pos rfl, takeWhile_inHost hhost hrest]
    rw [htake]
    refine iff_of_false (fun heq => ?_) fun hprefix => ?_
    · have hlen := congrArg List.length heq
      rw [List.length_append, List.length_cons] at hlen
      omega
    · have hmem : ':' ∈ info := hprefix.subset (List.mem_append_right _ (List.mem_singleton_self _))
      exact absurd (hall ':' hmem) (by decide)
  · obtain ⟨lead, tail, rfl, hlead⟩ : ∃ lead tail, info = lead ++ ':' :: tail ∧ ∀ c ∈ lead, inHost c = true := by
      cases hdrop : info.dropWhile inHost with
      | nil => exact absurd (List.dropWhile_eq_nil_iff.mp hdrop) hall
      | cons c tail =>
        have hsplit : info = info.takeWhile inHost ++ c :: tail := by rw [← hdrop, List.takeWhile_append_dropWhile]
        have hstop : inHost c = false := by
          have hhead := List.head?_dropWhile_not inHost info
          rw [hdrop] at hhead
          simpa using hhead
        obtain rfl := hcolon c (hsplit ▸ List.mem_append_right _ List.mem_cons_self) hstop
        exact ⟨_, tail, hsplit, fun c hc => List.mem_takeWhile_imp hc⟩
    have htake : (lead ++ ':' :: tail ++ '@' :: (host ++ rest)).takeWhile inHost = lead := by
      rw [List.append_assoc, List.cons_append]
      exact takeWhile_inHost hlead fun c hc => by cases hc; rfl
    rw [htake]
    constructor
    · rintro rfl
      exact ⟨tail, by rw [List.append_assoc]; rfl⟩
    · rintro ⟨tail', heq⟩
      rw [List.append_assoc] at heq
      have hhosts := congrArg (List.takeWhile inHost) heq
      have hstop : ∀ l : List Char, ∀ c ∈ (':' :: l).head?, inHost c = false := fun l c hc => by cases hc; rfl
      rwa [List.singleton_append, takeWhile_inHost hhost (hstop _), takeWhile_inHost hlead (hstop _), eq_comm] at hhosts

end Extraction

/-! ### The parts of a URL -/

section Parts
variable {u : Url}

theorem Url.colon_slash_not_mem {part : List Char} (h : ∀ c ∈ part, c ∉ genDelims) : ':' ∉ part ∧ '/' ∉ part :=
  ⟨fun hmem => h ':' hmem (by decide), fun hmem => h '/' hmem (by decide)⟩

/-- What follows the host starts with a colon or a slash. -/
theorem Url.rest_stop (u : Url) : ∀ c ∈ (u.portText ++ u.path).head?, inHost c = false := by
  intro c hc
  cases hport : u.port with
  | none =>
    have htext : u.portText = [] := by rw [Url.portText, hport]; rfl
    rw [htext, List.nil_append] at hc
    rcases u.path_start with hpath | hpath
    · rw [hpath] at hc
      cases hc
    · rw [hpath] at hc
      cases hc
      rfl
  | some digits =>
    have htext : u.portText = ':' :: digits := by rw [Url.portText, hport]; rfl
    rw [htext] at hc
    cases hc
    rfl

theorem extractHostname_text (u : Url) : extractHostname u.text = u.host ↔ u.NoOtherUser := by
  have hhost := inHost_of_plain u.host_plain
  rw [Url.text, extractHostname_scheme (Url.colon_slash_not_mem u.scheme_plain).1, Url.NoOtherUser]
  cases hinfo : u.userinfo with
  | none =>
    have htext : u.userinfoText = [] := by rw [Url.userinfoText, hinfo]; rfl
    rw [htext, List.nil_append, takeWhile_inHost hhost u.rest_stop]
    exact iff_of_true rfl fun info h => by cases h
  | some info =>
    have htext : u.userinfoText = info ++ ['@'] := by rw [Url.userinfoText, hinfo]; rfl
    rw [htext, List.append_assoc, List.singleton_append,
      takeWhile_userinfo (u.userinfo_plain info hinfo) hhost u.rest_stop]
    refine ⟨fun hprefix info' h => ?_, fun hall => hall info rfl⟩
    cases h
    exact hprefix

theorem extractHostname_host (u : Url) : extractHostname u.host = u.host := by
  obtain ⟨hcolon, hslash⟩ := Url.colon_slash_not_mem u.host_plain
  rw [extractHostname_bare hslash, firstPiece_eq, List.takeWhile_eq_self_iff]
  exact ne_of_not_mem hcolon

theorem extractHostname_host_port (u : Url) {digits : List Char} (h : ∀ c ∈ digits, c.isDigit = true) :
    extractHostname (u.host ++ ':' :: digits) = u.host := by
  obtain ⟨hcolon, hslash⟩ := Url.colon_slash_not_mem u.host_plain
  have hnot : '/' ∉ u.host ++ ':' :: digits := by
    rw [List.mem_append, List.mem_cons, not_or, not_or]
    exact ⟨hslash, by decide, fun hmem => absurd (h '/' hmem) (by decide)⟩
  rw [extractHostname_bare hnot, firstPiece_eq, takeWhile_append_cons hcolon]

end Parts

/-- The host of a URL is found, and the URL resolved as its host, exactly if there is no user information or its user is named
    like the host and followed by a colon. -/
theorem host_found_iff (u : Url) : u.HostFound ↔ u.NoOtherUser := by
  constructor
  · exact fun h => (extractHostname_text u).mp h.url
  · intro huser
    have hurl := (extractHostname_text u).mpr huser
    refine ⟨hurl, extractHostname_host u, fun digits => extractHostname_host_port u, fun env cache => ?_⟩
    simp only [resolveDomainToIpv4s, String.toList_ofList, hurl, extractHostname_host]

theorem plain_of_all {part : List Char} (h : (part.all fun c => !genDelims.contains c) = true) : ∀ c ∈ part, c ∉ genDelims := by
  intro c hc hmem
  have hnot := List.all_eq_true.mp h c hc
  rw [List.contains_iff_mem.mpr hmem] at hnot
  cases hnot

/-- `http://user@pool.example/` -/
def Url.withUser : Url where
  scheme := "http".toList
  userinfo := some "user".toList
  host := "pool.example".toList
  port := none
  path := ['/']
  scheme_plain := plain_of_all (by decide)
  userinfo_plain info h c hc := by
    cases h
    exact Or.inr (plain_of_all (by decide) c hc)
  host_plain := plain_of_all (by decide)
  port_digits digits h := by cases h
  path_start := Or.inr rfl

/-- The user information becomes a part of the hostname, so the name that is resolved is not the one of the pool. -/
theorem user_taken_for_host :
    String.ofList Url.withUser.text = "http://user@pool.example/" ∧
      String.ofList (extractHostname Url.withUser.text) = "user@pool.example" ∧ ¬Url.withUser.HostFound := by
  refine ⟨by decide, by decide +kernel, fun h => ?_⟩
  exact absurd h.url (by decide +kernel)

end TpnWorker
