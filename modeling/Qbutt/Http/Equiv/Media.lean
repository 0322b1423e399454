import Mathlib.Algebra.Order.BigOperators.Group.List
import Mathlib.Algebra.Order.Ring.Nat
import Qbutt.Http.Equiv.Source
import Qbutt.Http.Media

/-!
# Where media credentials go

`Resources.fetch` sends at most six requests, to checked addresses and never to `http` after `https`.
The headers of a descriptor go to the origin of its media address, but for the public ones; its
cookies go to the origins of its sources (`Scoped`).  Two descriptors that differ in their credentials
only look the same to a foreign origin until one of the calls ends (`credentials_scoped`).  A call
ends early where the cookies of an address do not fit into a header (`credentials_not_scoped`).
-/

namespace Qbutt.Http

open Resources Rust List

variable {urlLib : UrlLib} {cookieLib : CookieLib} {headerLib : HeaderLib} {media : PlaybackMedia}
  {resources : Resources} {value name method : String} {headers kept : List (String × String)}
  {session : SourceSession} {now : ℤ} {range : Option String} {s : MediaState}

/-! ### Origins -/

theorem Origin.same_iff {origin origin' : Origin} :
    origin.same origin' = true ↔ origin.isSome ∧ origin = origin' := by
  cases origin <;> cases origin' <;> simp [Origin.same]

theorem Origin.same_comm (origin origin' : Origin) :
    origin.same origin' = origin'.same origin := by
  rw [Bool.eq_iff_iff, Origin.same_iff, Origin.same_iff]
  constructor <;>
    · rintro ⟨hsome, rfl⟩
      exact ⟨hsome, rfl⟩

/-! ### Headers -/

/-- Whether a header of a descriptor is one of those that go everywhere. -/
def publicName (name : String) : Bool :=
  publicHeader (String.ofList (toAsciiLowercase name.toList))

theorem convertHeader_name {converted : String × String}
    (h : convertHeader urlLib headerLib name value = .ok converted) :
    converted.1 = String.ofList (toAsciiLowercase name.toList) := by
  unfold convertHeader at h
  obtain ⟨value', -, h⟩ := bind_eq_ok.mp h
  cases hname : headerLib.headerName name with
  | none =>
    rw [hname] at h
    cases h
  | some kept =>
    rw [hname] at h
    obtain ⟨⟨⟩, -, h⟩ := bind_eq_ok.mp h
    cases h
    rw [← headerLib.headerName_lowercase name kept hname, String.ofList_toList]

/-- What becomes of a header of the descriptor: it is left out, or it is taken over under its name
in lower case. -/
theorem playbackHeader_eq_ok {result result' : List (String × String)} {header : String × String}
    (h : playbackHeader urlLib headerLib result header = .ok result') :
    eqIgnoreAsciiCase header.1.toList "cookie" = false ∧
      (excludedHeader header.1 = true ∧ result' = result ∨
        excludedHeader header.1 = false ∧ ∃ converted,
          convertHeader urlLib headerLib header.1 header.2 = .ok converted ∧
            converted.1 ∉ result.map Prod.fst ∧ result' = result ++ [converted]) := by
  unfold playbackHeader at h
  split_ifs at h with hcookie hexcluded
  · exact ⟨by simpa using hcookie, Or.inl ⟨hexcluded, (Except.ok.inj h).symm⟩⟩
  · obtain ⟨converted, hconverted, h⟩ := bind_eq_ok.mp h
    obtain ⟨⟨⟩, hnew, h⟩ := bind_eq_ok.mp h
    refine ⟨by simpa using hcookie, Or.inr ⟨by simpa using hexcluded, converted, hconverted, ?_,
      (Except.ok.inj h).symm⟩⟩
    simpa using require_eq_ok.mp hnew

theorem toAsciiLowercase_eq {text : String}
    (h : String.ofList (toAsciiLowercase name.toList) = text)
    (hlower : toAsciiLowercase text.toList = text.toList) :
    eqIgnoreAsciiCase name.toList text = true := by
  unfold eqIgnoreAsciiCase
  rw [hlower, ← h, String.toList_ofList]
  simp

/-- The descriptor sets none of the headers that a request sets itself. -/
theorem playbackHeaders_names (h : playbackHeaders urlLib headerLib headers = .ok kept) :
    ∀ header ∈ kept, header.1 ∉ ["cookie", "accept-encoding", "range"] := by
  refine foldlM_ok_induction (fun _ (kept : List (String × String)) =>
    ∀ header ∈ kept, header.1 ∉ ["cookie", "accept-encoding", "range"]) h
    (fun header hmem => absurd hmem not_mem_nil) ?_
  intro done header result result' _ hresult hstep
  obtain ⟨hcookie, ⟨-, rfl⟩ | ⟨hexcluded, converted, hconverted, -, rfl⟩⟩ :=
    playbackHeader_eq_ok hstep
  · exact hresult
  intro header' hmem
  rcases mem_append.mp hmem with hmem | hmem
  · exact hresult header' hmem
  obtain rfl := mem_singleton.mp hmem
  have hname := convertHeader_name hconverted
  intro hbad
  have hnames : header'.1 = "cookie" ∨ header'.1 = "accept-encoding" ∨ header'.1 = "range" := by
    simpa using hbad
  unfold excludedHeader at hexcluded
  rcases hnames with heq | heq | heq
  · rw [toAsciiLowercase_eq (hname.symm.trans heq) (by decide)] at hcookie
    cases hcookie
  · have hmatch := toAsciiLowercase_eq (hname.symm.trans heq) (by decide)
    simp [hmatch] at hexcluded
  · have hmatch := toAsciiLowercase_eq (hname.symm.trans heq) (by decide)
    simp [hmatch] at hexcluded

theorem playbackHeaders_public (h : playbackHeaders urlLib headerLib headers = .ok kept) :
    playbackHeaders urlLib headerLib (headers.filter fun header => publicName header.1) =
      .ok (kept.filter fun header => publicHeader header.1) := by
  refine foldlM_ok_induction (fun done (kept : List (String × String)) =>
    playbackHeaders urlLib headerLib (done.filter fun header => publicName header.1) =
      .ok (kept.filter fun header => publicHeader header.1)) h rfl ?_
  intro done header result result' _ hresult hstep
  rw [filter_append]
  refine foldlM_append_ok hresult ?_
  obtain ⟨hcookie, ⟨hexcluded, rfl⟩ | ⟨hexcluded, converted, hconverted, hnew, rfl⟩⟩ :=
    playbackHeader_eq_ok hstep
  · -- the header is left out of both lists
    cases hpublic : publicName header.1 with
    | true =>
      simp only [filter_singleton, hpublic, cond_true, foldlM_cons]
      unfold playbackHeader
      rw [if_neg (by simp [hcookie]), if_pos hexcluded]
      rfl
    | false =>
      simp only [filter_singleton, hpublic, cond_false]
      rfl
  · have hkept : publicHeader converted.1 = publicName header.1 := by
      rw [convertHeader_name hconverted]
      rfl
    cases hpublic : publicName header.1 with
    | true =>
      rw [hpublic] at hkept
      simp only [filter_singleton, hpublic, cond_true, foldlM_cons, filter_append, hkept]
      have hnew' : converted.1 ∉
          (result.filter fun header => publicHeader header.1).map Prod.fst := by
        intro hmem
        obtain ⟨old, hold, heq⟩ := mem_map.mp hmem
        exact hnew (mem_map.mpr ⟨old, (mem_filter.mp hold).1, heq⟩)
      unfold playbackHeader
      rw [if_neg (by simp [hcookie]), if_neg (by simp [hexcluded]), hconverted]
      refine bind_eq_ok.mpr ⟨_, bind_eq_ok.mpr ⟨converted, rfl, bind_eq_ok.mpr
        ⟨(), require_eq_ok.mpr (by simpa using hnew'), rfl⟩⟩, rfl⟩
    | false =>
      rw [hpublic] at hkept
      simp only [filter_singleton, hpublic, cond_false, filter_append, hkept, append_nil]
      rfl

/-! ### Sessions -/

theorem store_spec {session' : SourceSession} {cookie : Cookie}
    (h : session.store cookie now = .ok session') :
    (session'.origin = session.origin ∧ session'.authorization = session.authorization ∧
        session'.userAgent = session.userAgent) ∧
      ∀ c ∈ session'.cookies, c ∈ session.cookies ∨ c = cookie := by
  unfold SourceSession.store at h
  simp only at h
  split_ifs at h
  · cases h
    exact ⟨⟨rfl, rfl, rfl⟩, fun c hc => Or.inl hc⟩
  · cases h
    exact ⟨⟨rfl, rfl, rfl⟩, fun c hc => Or.inl (mem_filter.mp hc).1⟩
  · cases h
    refine ⟨⟨rfl, rfl, rfl⟩, fun c hc => ?_⟩
    rcases mem_append.mp hc with hc | hc
    · exact Or.inl (mem_filter.mp hc).1
    · exact Or.inr (mem_singleton.mp hc)

/-- The session of a source holds cookies of the descriptor only, and no other credentials. -/
theorem forMedia_spec {url : Url} {cookies : List BrowserCookie}
    (h : SourceSession.forMedia cookieLib url cookies now = .ok session) :
    (session.origin = url.origin ∧ session.authorization = none ∧ session.userAgent = none) ∧
      ∀ c ∈ session.cookies, ∃ browser ∈ cookies,
        SourceSession.importCookie cookieLib url browser = .ok c := by
  unfold SourceSession.forMedia at h
  obtain ⟨⟨⟩, -, h⟩ := bind_eq_ok.mp h
  unfold SourceSession.importBrowserCookies at h
  refine foldlM_ok_induction (fun _ (session : SourceSession) =>
    (session.origin = url.origin ∧ session.authorization = none ∧ session.userAgent = none) ∧
      ∀ c ∈ session.cookies, ∃ browser ∈ cookies,
        SourceSession.importCookie cookieLib url browser = .ok c) h
    ⟨⟨rfl, rfl, rfl⟩, fun c hc => absurd hc not_mem_nil⟩ ?_
  rintro done browser old new hbrowser ⟨⟨horigin, hauthorization, hagent⟩, hcookies⟩ hstep
  obtain ⟨cookie, himport, hstore⟩ := bind_eq_ok.mp hstep
  obtain ⟨⟨horigin', hauthorization', hagent'⟩, hmem⟩ := store_spec hstore
  refine ⟨⟨horigin'.trans horigin, hauthorization'.trans hauthorization,
    hagent'.trans hagent⟩, fun c hc => ?_⟩
  rcases hmem c hc with hold | rfl
  · exact hcookies c hold
  · exact ⟨browser, hbrowser, himport⟩

theorem sessionsOf_spec {sessions : List SourceSession}
    (h : sessionsOf cookieLib media now = .ok sessions) :
    ∀ session ∈ sessions, ∃ url ∈ media.sources,
      SourceSession.forMedia cookieLib url (cookiesOf media url) now = .ok session := by
  unfold sessionsOf at h
  refine foldlM_ok_induction (fun _ sessions => ∀ session ∈ sessions, ∃ url ∈ media.sources,
    SourceSession.forMedia cookieLib url (cookiesOf media url) now = .ok session) h
    (fun session hmem => absurd hmem not_mem_nil) ?_
  intro done url sessions sessions' hurl hsessions hstep
  split_ifs at hstep
  · cases hstep
    exact hsessions
  · cases hstep
    exact hsessions
  · cases hmedia : SourceSession.forMedia cookieLib url (cookiesOf media url) now with
    | error error =>
      rw [hmedia] at hstep
      cases hstep
    | ok session =>
      rw [hmedia] at hstep
      cases hstep
      intro session' hmem
      rcases mem_append.mp hmem with hmem | hmem
      · exact hsessions session' hmem
      · obtain rfl := mem_singleton.mp hmem
        exact ⟨url, hurl, hmedia⟩

/-- A cookie of the descriptor that is valid for one of its sources at the origin of an address. -/
def OwnCookie (cookieLib : CookieLib) (media : PlaybackMedia) (target : Url) (cookie : Cookie) :
    Prop :=
  ∃ browser ∈ media.cookies, ∃ source ∈ media.sources,
    source.origin.same target.origin = true ∧ browser.validFor source = true ∧
      ∃ url ∈ media.sources, url.origin.same target.origin = true ∧
        SourceSession.importCookie cookieLib url browser = .ok cookie

/-- What the resources of a descriptor consist of. -/
structure Built (urlLib : UrlLib) (cookieLib : CookieLib) (headerLib : HeaderLib)
    (media : PlaybackMedia) (resources : Resources) : Prop where
  origin : resources.origin = media.url.origin
  headers : playbackHeaders urlLib headerLib media.headers = .ok resources.headers
  sessions : ∀ session ∈ resources.sessions, ∃ url ∈ media.sources, ∃ now,
    SourceSession.forMedia cookieLib url (cookiesOf media url) now = .ok session

theorem built_of_withClient (h : withClient urlLib cookieLib headerLib media now = .ok resources) :
    Built urlLib cookieLib headerLib media resources := by
  unfold withClient at h
  obtain ⟨sessions, hsessions, h⟩ := bind_eq_ok.mp h
  obtain ⟨headers, hheaders, h⟩ := bind_eq_ok.mp h
  cases h
  refine ⟨rfl, hheaders, fun session hmem => ?_⟩
  obtain ⟨url, hurl, hsession⟩ := sessionsOf_spec hsessions session hmem
  exact ⟨url, hurl, now, hsession⟩

/-- A session is used at the origin of one of the sources, with cookies of the descriptor. -/
theorem sessionFor_spec (hbuilt : Built urlLib cookieLib headerLib media resources) {target : Url}
    (h : resources.sessionFor target = some session) :
    (∃ source ∈ media.sources, source.origin.same target.origin = true) ∧
      session.ownHeaders target = [] ∧
      ∀ cookie ∈ session.cookies, OwnCookie cookieLib media target cookie := by
  have hsame : session.origin.same target.origin = true := by
    simpa using List.find?_some h
  obtain ⟨url, hurl, now, hmedia⟩ := hbuilt.sessions session (mem_of_find?_eq_some h)
  obtain ⟨⟨horigin, hauthorization, hagent⟩, hcookies⟩ := forMedia_spec hmedia
  rw [horigin] at hsame
  refine ⟨⟨url, hurl, hsame⟩, ?_, fun cookie hcookie => ?_⟩
  · unfold SourceSession.ownHeaders
    simp [hauthorization, hagent]
  · obtain ⟨browser, hbrowser, himport⟩ := hcookies cookie hcookie
    unfold cookiesOf at hbrowser
    simp only [mem_filter, any_eq_true, Bool.and_eq_true] at hbrowser
    obtain ⟨hbrowser, source, hsource, hsameSource, hvalid⟩ := hbrowser
    have hsource' : source.origin.same target.origin = true := by
      obtain ⟨hsome, heq⟩ := Origin.same_iff.mp hsameSource
      rw [heq]
      exact hsame
    exact ⟨browser, hbrowser, source, hsource, hsource', hvalid, url, hurl, hsame, himport⟩

/-! ### Requests and answers -/

/-- The headers of a request: those of the descriptor for the address, the cookies of the session
of the address, and the request's own. -/
theorem buildRequest_eq_ok {target : Url} {request : Request}
    (hbuilt : Built urlLib cookieLib headerLib media resources)
    (h : Resources.buildRequest cookieLib headerLib resources method range target now =
      .ok request) :
    ∃ cookies : List (String × String), request =
        { method := method, url := target, headers := headersFor resources target ++ cookies ++
          (("accept-encoding", "identity") :: range.toList.map fun range => ("range", range)) } ∧
      (cookies = [] ∨ ∃ session header, resources.sessionFor target = some session ∧
        SourceSession.cookieHeader (session.cookiesFor cookieLib target now) = .ok header ∧
        cookies = [("cookie", header)]) := by
  unfold Resources.buildRequest at h
  simp only at h
  obtain ⟨applied, happlied, h⟩ := bind_eq_ok.mp h
  cases h
  unfold applySession at happlied
  cases hsession : resources.sessionFor target with
  | none =>
    rw [hsession] at happlied
    cases happlied
    exact ⟨[], by simp [Request.addHeaders], Or.inl rfl⟩
  | some session =>
    rw [hsession] at happlied
    obtain ⟨header, hheader, -, rfl⟩ := apply_eq_ok.mp (mapError_eq_ok.mp happlied)
    obtain ⟨-, hown, -⟩ := sessionFor_spec hbuilt hsession
    refine ⟨[("cookie", header)], ?_, Or.inr ⟨session, header, rfl, hheader, rfl⟩⟩
    simp [Request.addHeaders, Request.header, hown]

/-- What an answer that does not end the call makes of the variables. -/
theorem media_receive {s' : MediaState} {response : Response}
    (h : Resources.receive urlLib s response = .inl s') :
    s'.redirects = s.redirects + 1 ∧ s.redirects ≠ 5 ∧
      (s.target.scheme = "https" → s'.target.scheme = "https") := by
  unfold Resources.receive at h
  split_ifs at h with hredirect hlast
  cases hnext : (response.location.bind HeaderValue.toStr).bind (urlLib.join s.target) with
  | none =>
    rw [hnext] at h
    cases h
  | some next =>
    rw [hnext] at h
    simp only at h
    split_ifs at h with hscheme
    cases h
    refine ⟨rfl, hlast, fun hs => ?_⟩
    by_contra hnot
    exact hscheme ⟨hs, hnot⟩

theorem media_step (s : MediaState) (answer : Except Error Response) (now : ℤ) (s' : MediaState)
    (hle : s.redirects ≤ 5)
    (h : (loop urlLib cookieLib headerLib resources method range).answer s answer now = .inl s') :
    s'.redirects ≤ 5 ∧ 5 - s'.redirects < 5 - s.redirects := by
  cases answer with
  | error error => cases h
  | ok response =>
    obtain ⟨hredirects, hlast, -⟩ := media_receive h
    omega

theorem media_request {request : Request}
    (h : (loop urlLib cookieLib headerLib resources method range).request s now = .ok request) :
    validateMediaUrl s.target = .ok () ∧
      Resources.buildRequest cookieLib headerLib resources method range s.target now =
        .ok request := by
  unfold loop at h
  simp only at h
  cases hvalid : validateMediaUrl s.target with
  | error error =>
    rw [hvalid] at h
    cases h
  | ok _ =>
    rw [hvalid] at h
    simp only at h
    split at h
    · cases h
    · rename_i built hbuilt
      cases h
      exact ⟨rfl, hbuilt⟩

/-! ### One descriptor -/

/-- The requests for a descriptor, and where its credentials go. -/
structure Scoped (cookieLib : CookieLib) (media : PlaybackMedia)
    (trace : List (Sent MediaState Request (Except Error Response))) : Prop where
  length : trace.length ≤ 6
  valid : ∀ sent ∈ trace, validateMediaUrl sent.request.url = .ok ()
  https : trace.Pairwise fun sent later =>
    sent.request.url.scheme = "https" → later.request.url.scheme = "https"
  /-- headers that are neither public nor the request's own go to the origin of the media -/
  headers : ∀ sent ∈ trace, ∀ name value, (name, value) ∈ sent.request.headers →
    publicHeader name = false → name ∉ ["cookie", "accept-encoding", "range"] →
      sent.request.url.origin.same media.url.origin = true
  /-- cookies go to the origins of the sources, and match the address -/
  cookies : ∀ sent ∈ trace, ∀ header, ("cookie", header) ∈ sent.request.headers →
    (∃ source ∈ media.sources, source.origin.same sent.request.url.origin = true) ∧
      ∃ cookies, SourceSession.cookieHeader cookies = .ok header ∧ ∀ cookie ∈ cookies,
        cookieLib.matchesUrl cookie sent.request.url = true ∧
          OwnCookie cookieLib media sent.request.url cookie

section Traces

variable {method : String} {range : Option String} {s : MediaState}
  {trace : List (Sent MediaState Request (Except Error Response))}

theorem media_requests
    (h : (loop urlLib cookieLib headerLib resources method range).Trace s trace) :
    ∀ sent ∈ trace, validateMediaUrl sent.state.target = .ok () ∧ ∃ now,
      Resources.buildRequest cookieLib headerLib resources method range sent.state.target now =
        .ok sent.request := by
  intro sent hsent
  obtain ⟨-, now, hrequest⟩ := h.invariant (I := fun _ => True)
    (fun _ _ _ _ _ _ => trivial) trivial sent hsent
  obtain ⟨hvalid, hbuild⟩ := media_request hrequest
  exact ⟨hvalid, now, hbuild⟩

theorem media_urls (hbuilt : Built urlLib cookieLib headerLib media resources)
    (h : (loop urlLib cookieLib headerLib resources method range).Trace s trace) :
    ∀ sent ∈ trace, sent.request.url = sent.state.target := by
  intro sent hsent
  obtain ⟨-, now, hbuild⟩ := media_requests h sent hsent
  obtain ⟨cookies, heq, -⟩ := buildRequest_eq_ok hbuilt hbuild
  rw [heq]

theorem media_https (hbuilt : Built urlLib cookieLib headerLib media resources)
    (h : (loop urlLib cookieLib headerLib resources method range).Trace s trace)
    (hs : s.target.scheme = "https") : ∀ sent ∈ trace, sent.request.url.scheme = "https" := by
  intro sent hsent
  rw [media_urls hbuilt h sent hsent]
  have hkept : ∀ (s : MediaState) answer now s', s.target.scheme = "https" →
      (loop urlLib cookieLib headerLib resources method range).answer s answer now = .inl s' →
        s'.target.scheme = "https" := by
    intro s answer now s' hs hstep
    cases answer with
    | error error => cases hstep
    | ok response => exact (media_receive hstep).2.2 hs
  exact (h.invariant hkept hs sent hsent).1

end Traces

theorem scoped_fetch (hbuilt : Built urlLib cookieLib headerLib media resources) (target : Url)
    (method : String) (range : Option String)
    (exchanges : List (Exchange (Except Error Response))) :
    Scoped cookieLib media
      (fetch urlLib cookieLib headerLib resources target method range exchanges).1 := by
  unfold fetch
  have htrace := (loop urlLib cookieLib headerLib resources method range).trace_run exchanges
    { target := target }
  have hnames := playbackHeaders_names hbuilt.headers
  constructor
  case length => exact htrace.length_le media_step (Nat.zero_le 5)
  case valid =>
    intro sent hsent
    rw [media_urls hbuilt htrace sent hsent]
    exact (media_requests htrace sent hsent).1
  case https =>
    refine htrace.pairwise_of_tail ?_
    intro s request answer t t' s' trace hrequest hnext htail later hlater hscheme
    cases answer with
    | error error => cases hnext
    | ok response =>
      obtain ⟨cookies, heq, -⟩ := buildRequest_eq_ok hbuilt (media_request hrequest).2
      have hs : s.target.scheme = "https" := by
        rw [heq] at hscheme
        exact hscheme
      exact media_https hbuilt htail ((media_receive hnext).2.2 hs) later hlater
  case headers =>
    intro sent hsent name value hmem hpublic hown
    obtain ⟨-, now, hbuild⟩ := media_requests htrace sent hsent
    obtain ⟨cookies, heq, hcookies⟩ := buildRequest_eq_ok hbuilt hbuild
    rw [media_urls hbuilt htrace sent hsent]
    have hheader : (name, value) ∈ headersFor resources sent.state.target := by
      rw [heq] at hmem
      rcases hcookies with rfl | ⟨session, header, -, -, rfl⟩ <;>
        · simp only [mem_cons, not_mem_nil, or_false, not_or] at hown
          simpa [hown, Ne.symm hown.2.2] using hmem
    unfold headersFor at hheader
    simp only [mem_filter, hpublic, Bool.or_false] at hheader
    rw [← hbuilt.origin]
    exact hheader.2
  case cookies =>
    intro sent hsent header hmem
    obtain ⟨-, now, hbuild⟩ := media_requests htrace sent hsent
    obtain ⟨cookies, heq, hcookies⟩ := buildRequest_eq_ok hbuilt hbuild
    rw [media_urls hbuilt htrace sent hsent]
    -- the descriptor has no such header, so the session has added it
    have hdescriptor : ("cookie", header) ∉ headersFor resources sent.state.target := by
      intro hheader
      unfold headersFor at hheader
      exact hnames _ (mem_filter.mp hheader).1 (by simp)
    rcases hcookies with rfl | ⟨session, header', hsession, hheader', rfl⟩
    · rw [heq] at hmem
      simp [hdescriptor] at hmem
    · obtain rfl : header = header' := by
        rw [heq] at hmem
        simpa [hdescriptor] using hmem
      obtain ⟨hsource, -, hown⟩ := sessionFor_spec hbuilt hsession
      refine ⟨hsource, _, hheader', fun cookie hcookie => ?_⟩
      unfold SourceSession.cookiesFor at hcookie
      simp only [mem_insertionSort, mem_filter, Bool.and_eq_true] at hcookie
      exact ⟨hcookie.2.2, hown cookie hcookie.1⟩

/-! ### Two descriptors -/

/-- Two descriptors that differ in the values of cookies and in headers that are not public only. -/
structure SameButCredentials (media media' : PlaybackMedia) : Prop where
  url : media'.url = media.url
  audioUrl : media'.audioUrl = media.audioUrl
  subtitleUrls : media'.subtitleUrls = media.subtitleUrls
  cookies : List.Forall₂ (fun cookie cookie' => { cookie' with value := cookie.value } = cookie)
    media.cookies media'.cookies
  headers : (media'.headers.filter fun header => publicName header.1) =
    media.headers.filter fun header => publicName header.1

theorem SameButCredentials.sources {media' : PlaybackMedia} (h : SameButCredentials media media') :
    media'.sources = media.sources := by
  unfold PlaybackMedia.sources
  rw [h.url, h.audioUrl, h.subtitleUrls]

/-- The states in which a request goes to the origin of no source of a descriptor. -/
def foreign (media : PlaybackMedia) (s : MediaState) : Bool :=
  !media.sources.any fun source => source.origin.same s.target.origin

theorem foreign_request (hbuilt : Built urlLib cookieLib headerLib media resources)
    (hforeign : foreign media s = true) (now : ℤ) :
    Resources.buildRequest cookieLib headerLib resources method range s.target now =
      .ok { method := method, url := s.target,
            headers := (resources.headers.filter fun header => publicHeader header.1) ++
              (("accept-encoding", "identity") :: range.toList.map fun range => ("range", range)) } := by
  unfold foreign at hforeign
  simp only [Bool.not_eq_true', any_eq_false, Bool.not_eq_true] at hforeign
  have hsession : resources.sessionFor s.target = none := by
    cases h : resources.sessionFor s.target with
    | none => rfl
    | some session =>
      obtain ⟨⟨source, hsource, hsame⟩, -⟩ := sessionFor_spec hbuilt h
      rw [hforeign source hsource] at hsame
      cases hsame
  have horigin : s.target.origin.same resources.origin = false := by
    rw [hbuilt.origin, Origin.same_comm]
    exact hforeign media.url (by simp [PlaybackMedia.sources])
  unfold Resources.buildRequest applySession headersFor
  simp only [hsession, horigin, Bool.false_or]
  rfl

def cookiesFit (cookieLib : CookieLib) (headerLib : HeaderLib) (resources : Resources)
    (target : Url) (now : ℤ) : Prop :=
  ∀ session, resources.sessionFor target = some session → ∃ header,
    SourceSession.cookieHeader (session.cookiesFor cookieLib target now) = .ok header ∧
      headerLib.headerValue header = true

theorem loop_request_isOk (h : cookiesFit cookieLib headerLib resources s.target now) :
    ((loop urlLib cookieLib headerLib resources method range).request s now).isOk =
      (validateMediaUrl s.target).isOk := by
  unfold loop
  simp only
  cases validateMediaUrl s.target with
  | error error => rfl
  | ok _ =>
    have hbuild : ∃ request, Resources.buildRequest cookieLib headerLib resources method range
        s.target now = .ok request := by
      unfold Resources.buildRequest applySession
      simp only
      cases hsession : resources.sessionFor s.target with
      | none => exact ⟨_, rfl⟩
      | some session =>
        obtain ⟨header, hheader, hvalue⟩ := h session hsession
        exact ⟨_, bind_eq_ok.mpr ⟨_, mapError_eq_ok.mpr (apply_eq_ok.mpr
          ⟨header, hheader, hvalue, rfl⟩), rfl⟩⟩
    obtain ⟨request, hrequest⟩ := hbuild
    rw [hrequest]
    rfl

/-- The credentials of a descriptor stay with their origins.  Two descriptors that differ in their
credentials only show a foreign origin the same requests until one of the two calls ends, and all
the way if no cookie header of theirs is refused. -/
theorem credentials_scoped {now : ℤ}
    (hclient : withClient urlLib cookieLib headerLib media now = .ok resources) (target : Url)
    (method : String) (range : Option String)
    (exchanges : List (Exchange (Except Error Response))) :
    let trace := (fetch urlLib cookieLib headerLib resources target method range exchanges).1
    Scoped cookieLib media trace ∧
      ∀ media' resources' now', SameButCredentials media media' →
        withClient urlLib cookieLib headerLib media' now' = .ok resources' →
        let trace' := (fetch urlLib cookieLib headerLib resources' target method range exchanges).1
        Dialogue.OnePrefix (Dialogue.seen (foreign media) trace)
            (Dialogue.seen (foreign media) trace') ∧
          ((∀ v ∈ (loop urlLib cookieLib headerLib resources method range).visits exchanges
              { target }, cookiesFit cookieLib headerLib resources v.1.target v.2 ∧
                cookiesFit cookieLib headerLib resources' v.1.target v.2) →
            Dialogue.seen (foreign media) trace = Dialogue.seen (foreign media) trace') := by
  have hbuilt := built_of_withClient hclient
  refine ⟨scoped_fetch hbuilt target method range exchanges, ?_⟩
  intro media' resources' now' hsame hclient'
  have hbuilt' := built_of_withClient hclient'
  have hheaders : (resources.headers.filter fun header => publicHeader header.1) =
      resources'.headers.filter fun header => publicHeader header.1 := by
    have hpublic := playbackHeaders_public hbuilt.headers
    have hpublic' := playbackHeaders_public hbuilt'.headers
    rw [hsame.headers, hpublic] at hpublic'
    exact Except.ok.inj hpublic'
  have hanswer : (loop urlLib cookieLib headerLib resources method range).answer =
      (loop urlLib cookieLib headerLib resources' method range).answer := rfl
  have hrequest : ∀ s t, foreign media s = true →
      (loop urlLib cookieLib headerLib resources method range).request s t =
        (loop urlLib cookieLib headerLib resources' method range).request s t := by
    intro s t hforeign
    have hforeign' : foreign media' s = true := by
      unfold foreign
      rw [hsame.sources]
      exact hforeign
    unfold loop
    simp only
    rw [foreign_request hbuilt hforeign, foreign_request hbuilt' hforeign', hheaders]
  refine ⟨Dialogue.lockstep hanswer hrequest exchanges _, fun hfit => ?_⟩
  refine Dialogue.lockstep_eq hanswer hrequest exchanges _ fun v hv => ?_
  obtain ⟨h, h'⟩ := hfit v hv
  rw [loop_request_isOk h, loop_request_isOk h']

/-! ### A descriptor whose cookies do not fit into a header -/

def sampleUrl (host path : String) : Url where
  text := "https://" ++ host ++ path
  scheme := "https"
  username := ""
  password := none
  host := some (.domain host)
  hostStr := some host
  portOrKnownDefault := some 443
  path := path
  fragment := none
  origin := some ⟨"https", .domain host, 443⟩

def videoUrl : Url := sampleUrl "video.example" "/film.mp4"

def cdnUrl : Url := sampleUrl "cdn.example" "/film.mp4"

def sampleUrlLib : UrlLib where
  parse _ := none
  join _ location := if location = cdnUrl.text then some cdnUrl else none
  withoutQuery url := url
  asciiSerialization _ := "null"

def sampleHeaderLib : HeaderLib where
  headerName text := some (String.ofList (toAsciiLowercase text.toList))
  headerName_lowercase text name h := by
    cases h
    exact String.toList_ofList
  headerValue text := text.toList.all fun c => 0x20 ≤ c.toNat && c.toNat < 0x7f

def sampleCookieLib : CookieLib where
  tryFromRawCookie raw url := some
    { name := raw.name, value := raw.value, valueTrimmed := raw.value, domain := url.hostStr,
      path := raw.path, secure := raw.secure, httpOnly := raw.httpOnly, expires := none }
  parse _ _ _ := none
  matchesUrl cookie url := cookie.domain == url.hostStr &&
    cookie.path.toList.isPrefixOf url.path.toList
  fromUnixTimestamp _ := none

def sampleCookie (value name : String) : BrowserCookie where
  name := name
  value := value
  domain := "video.example"
  path := "/"
  secure := true
  hostOnly := true
  httpOnly := none
  expirationDate := none

def sampleMedia (value : String) : PlaybackMedia where
  url := videoUrl
  headers := [("Authorization", "Basic"), ("User-Agent", "player")]
  cookies := ["a", "b", "c", "d"].map (sampleCookie value)

def sampleExchanges : List (Exchange (Except Error Response)) :=
  [{ sentAt := 0, answer := some (.ok { status := 302, location := some (.text cdnUrl.text) }) },
    { sentAt := 1, answer := some (.ok { status := 200 }) }]

/-- A value that a cookie header and a session can hold. -/
structure Sendable (value : String) : Prop where
  length : byteLength value ≤ 16 * 1024
  control : value.toList.any isControl = false
  graphic : (value.toList.any fun c =>
    !SourceSession.isAsciiGraphic c || "\",;\\".toList.contains c) = false

def storedCookie (value name : String) : Cookie where
  name := name
  value := value
  valueTrimmed := value
  domain := some "video.example"
  path := "/"
  secure := true
  httpOnly := false
  expires := none

theorem cookieBytes_storedCookie (hvalue : Sendable value) (hname : name ∈ ["a", "b", "c", "d"]) :
    SourceSession.cookieBytes (storedCookie value name) ≤ 16 * 1024 + 15 := by
  have hlength := hvalue.length
  have hone : byteLength name = 1 := by
    simp only [mem_cons, not_mem_nil, or_false] at hname
    rcases hname with rfl | rfl | rfl | rfl <;> rfl
  show byteLength name + byteLength value + 13 + 1 ≤ _
  omega

/-- Cookies of different names are stored side by side. -/
theorem store_sample (hvalue : Sendable value) {names : List String}
    (hnames : (names ++ [name]).Nodup) (hsub : names ++ [name] ⊆ ["a", "b", "c", "d"])
    (hcookies : session.cookies = names.map (storedCookie value)) :
    session.store (storedCookie value name) 0 =
      .ok { session with cookies := (names ++ [name]).map (storedCookie value) } := by
  have hname : name ∈ ["a", "b", "c", "d"] := hsub (by simp)
  have hnew : name ∉ names := by
    rw [nodup_append] at hnames
    exact fun hmem => hnames.2.2 name hmem name (by simp) rfl
  have hlength : (names ++ [name]).length ≤ 4 := hnames.length_le_of_subset hsub
  have hnameOk : (name.isEmpty || name.toList.any fun c =>
      !SourceSession.isAsciiGraphic c || "()<>@,;:\\\"/[]?=\x7b\x7d".toList.contains c) = false := by
    simp only [mem_cons, not_mem_nil, or_false] at hname
    rcases hname with rfl | rfl | rfl | rfl <;> decide
  have hcond : ((storedCookie value name).name.isEmpty ||
      (storedCookie value name).name.toList.any (fun c =>
        !SourceSession.isAsciiGraphic c || "()<>@,;:\\\"/[]?=\x7b\x7d".toList.contains c) ||
      (storedCookie value name).valueTrimmed.toList.any fun c =>
        !SourceSession.isAsciiGraphic c || "\",;\\".toList.contains c) = false := by
    show (name.isEmpty || name.toList.any _ || value.toList.any _) = false
    rw [hnameOk, hvalue.graphic]
    rfl
  have hkept : (session.cookies.filter fun old =>
      let sameKey := old.domain == (storedCookie value name).domain &&
        old.path == (storedCookie value name).path && old.name == (storedCookie value name).name
      !old.isExpired 0 && !sameKey) = session.cookies := by
    rw [filter_eq_self, hcookies]
    intro old hold
    obtain ⟨name', hname', rfl⟩ := mem_map.mp hold
    have hne : name' ≠ name := fun heq => hnew (heq ▸ hname')
    show (!false && !(_ && (name' == name))) = true
    simp [hne]
  have hbytes : ((session.cookies ++ [storedCookie value name]).map
      SourceSession.cookieBytes).sum ≤ 4 * (16 * 1024 + 15) := by
    have hall : ∀ n ∈ (session.cookies ++ [storedCookie value name]).map SourceSession.cookieBytes,
        n ≤ 16 * 1024 + 15 := by
      intro n hn
      rw [hcookies] at hn
      have hn' : n ∈ ((names ++ [name]).map (storedCookie value)).map SourceSession.cookieBytes := by
        simpa using hn
      obtain ⟨cookie, hcookie, rfl⟩ := mem_map.mp hn'
      obtain ⟨name', hname', rfl⟩ := mem_map.mp hcookie
      exact cookieBytes_storedCookie hvalue (hsub hname')
    have hsum := sum_le_card_nsmul _ _ hall
    have hcount : ((session.cookies ++ [storedCookie value name]).map
        SourceSession.cookieBytes).length ≤ 4 := by
      rw [hcookies]
      simpa using hlength
    rw [nsmul_eq_mul, Nat.cast_id] at hsum
    exact hsum.trans (Nat.mul_le_mul_right _ hcount)
  unfold SourceSession.store
  simp only [hcond, hkept]
  have hfull : (decide (session.cookies.length = BrowserCookie.MAX_SESSION_COOKIES) ||
      decide (BrowserCookie.MAX_SESSION_BYTES <
        ((session.cookies ++ [storedCookie value name]).map SourceSession.cookieBytes).sum)) =
      false := by
    have hcount : session.cookies.length ≤ 4 := by
      rw [hcookies, length_map]
      rw [length_append] at hlength
      omega
    simp only [Bool.or_eq_false_iff, decide_eq_false_iff_not]
    unfold BrowserCookie.MAX_SESSION_COOKIES BrowserCookie.MAX_SESSION_BYTES
    omega
  rw [hfull]
  simp [Cookie.isExpired, storedCookie, hcookies]

/-- Whether a cookie is valid depends on the size of its value and its control characters only. -/
theorem validFor_withValue (hvalue : Sendable value) (cookie : BrowserCookie) (url : Url) :
    { cookie with value := value }.validFor url = { cookie with value := "" }.validFor url := by
  have hlength : decide (byteLength value ≤ 16 * 1024) = true := by simpa using hvalue.length
  have hempty : decide (byteLength "" ≤ 16 * 1024) = true := by decide
  have hcontrol : "".toList.any isControl = false := rfl
  unfold BrowserCookie.validFor
  simp only [hlength, hempty, hvalue.control, hcontrol]

theorem validFor_sample (hvalue : Sendable value) (hname : name ∈ ["a", "b", "c", "d"]) :
    (sampleCookie value name).validFor videoUrl = true := by
  have hvalid : ∀ name ∈ ["a", "b", "c", "d"],
      (sampleCookie "" name).validFor videoUrl = true := by decide
  exact (validFor_withValue hvalue (sampleCookie "" name) videoUrl).trans (hvalid name hname)

theorem forMedia_sample (hvalue : Sendable value) :
    SourceSession.forMedia sampleCookieLib videoUrl
      (["a", "b", "c", "d"].map (sampleCookie value)) 0 =
        .ok { origin := videoUrl.origin,
              cookies := ["a", "b", "c", "d"].map (storedCookie value) } := by
  have hstep : ∀ (names : List String) (name : String) (session : SourceSession),
      (names ++ [name]).Nodup → names ++ [name] ⊆ ["a", "b", "c", "d"] →
      session.cookies = names.map (storedCookie value) →
      (do session.store (← SourceSession.importCookie sampleCookieLib videoUrl
        (sampleCookie value name)) 0) =
          .ok { session with cookies := (names ++ [name]).map (storedCookie value) } :=
    fun names name session hnodup hsub hcookies => store_sample hvalue hnodup hsub hcookies
  unfold SourceSession.forMedia SourceSession.importBrowserCookies
  refine bind_eq_ok.mpr ⟨(), by decide, ?_⟩
  simp only [map_cons, map_nil, foldlM_cons, foldlM_nil]
  refine bind_eq_ok.mpr ⟨_, hstep [] "a" _ (by decide) (by decide) rfl, ?_⟩
  refine bind_eq_ok.mpr ⟨_, hstep ["a"] "b" _ (by decide) (by decide) rfl, ?_⟩
  refine bind_eq_ok.mpr ⟨_, hstep ["a", "b"] "c" _ (by decide) (by decide) rfl, ?_⟩
  exact bind_eq_ok.mpr ⟨_, hstep ["a", "b", "c"] "d" _ (by decide) (by decide) rfl, rfl⟩

def sampleResources (value : String) : Resources where
  origin := videoUrl.origin
  headers := [("authorization", "Basic"), ("user-agent", "player")]
  sessions := [{ origin := videoUrl.origin,
                 cookies := ["a", "b", "c", "d"].map (storedCookie value) }]

theorem withClient_sample (hvalue : Sendable value) :
    withClient sampleUrlLib sampleCookieLib sampleHeaderLib (sampleMedia value) 0 =
      .ok (sampleResources value) := by
  have hcookies : cookiesOf (sampleMedia value) videoUrl =
      ["a", "b", "c", "d"].map (sampleCookie value) := by
    unfold cookiesOf
    refine filter_eq_self.mpr fun cookie hcookie => ?_
    obtain ⟨name, hname, rfl⟩ := mem_map.mp hcookie
    refine any_eq_true.mpr ⟨videoUrl, mem_cons_self, ?_⟩
    rw [validFor_sample hvalue hname]
    decide
  have hsessions : sessionsOf sampleCookieLib (sampleMedia value) 0 =
      .ok (sampleResources value).sessions := by
    show (List.foldlM _ [] [videoUrl]) = _
    rw [foldlM_cons]
    simp only [any_nil, Bool.false_eq_true, if_false, hcookies, forMedia_sample hvalue]
    rfl
  unfold withClient
  refine bind_eq_ok.mpr ⟨_, hsessions, bind_eq_ok.mpr ⟨_, ?_, rfl⟩⟩
  show playbackHeaders sampleUrlLib sampleHeaderLib
    [("Authorization", "Basic"), ("User-Agent", "player")] = _
  decide

/-- Sixteen KiB of a letter. -/
def longValue : String := String.ofList (List.replicate (16 * 1024) 'a')

theorem byteLength_append (a b : String) : byteLength (a ++ b) = byteLength a + byteLength b := by
  unfold byteLength
  simp

theorem byteLength_replicate (n : ℕ) :
    byteLength (String.ofList (List.replicate n 'a')) = n := by
  induction n with
  | zero => rfl
  | succ n ih =>
    rw [replicate_succ, ← singleton_append, String.ofList_append, byteLength_append, ih]
    show 1 + n = n + 1
    omega

theorem byteLength_longValue : byteLength longValue = 16 * 1024 := byteLength_replicate _

/-- A header that is built holds all its cookies, and has the size it may have. -/
theorem length_cookieHeader {cookies : List Cookie} {header : String}
    (h : SourceSession.cookieHeader cookies = .ok header) :
    (cookies.map fun cookie => byteLength cookie.name + 1 + byteLength cookie.value).sum ≤
        byteLength header ∧ byteLength header ≤ MAX_COOKIE_HEADER_BYTES := by
  refine foldlM_ok_induction (fun done header =>
    (done.map fun cookie => byteLength cookie.name + 1 + byteLength cookie.value).sum ≤
        byteLength header ∧ byteLength header ≤ MAX_COOKIE_HEADER_BYTES) h
    ⟨Nat.le_refl 0, Nat.zero_le _⟩ ?_
  rintro done cookie header header' - ⟨hsum, -⟩ hstep
  simp only at hstep
  set prev := if header.isEmpty = true then header else header ++ "; " with hprev
  have hle : byteLength header ≤ byteLength prev := by
    rw [hprev]
    split_ifs
    · exact le_rfl
    · rw [byteLength_append]
      omega
  split_ifs at hstep with hfits
  cases hstep
  refine ⟨?_, not_lt.mp hfits⟩
  have hequals : byteLength "=" = 1 := rfl
  simp only [map_append, sum_append, map_cons, map_nil, sum_cons,
    sum_nil, byteLength_append, hequals]
  omega

theorem sendable_replicate {n : ℕ} (h : n ≤ 16 * 1024) :
    Sendable (String.ofList (List.replicate n 'a')) where
  length := (byteLength_replicate n).le.trans h
  control := by
    rw [String.toList_ofList, any_eq_false]
    intro c hc
    rw [eq_of_mem_replicate hc]
    decide
  graphic := by
    rw [String.toList_ofList, any_eq_false]
    intro c hc
    rw [eq_of_mem_replicate hc]
    decide

theorem sendable_longValue : Sendable longValue := sendable_replicate le_rfl

theorem sendable_x : Sendable "x" where
  length := by decide
  control := by decide
  graphic := by decide

theorem request_sample (hlength : byteLength value = 16 * 1024) :
    ∃ error, (loop sampleUrlLib sampleCookieLib sampleHeaderLib (sampleResources value) "GET"
      none).request { target := videoUrl } 0 = .error error := by
  set session : SourceSession :=
    { origin := videoUrl.origin,
      cookies := ["a", "b", "c", "d"].map (storedCookie value) } with hsession
  have hall : session.cookies.filter (fun cookie =>
      !cookie.isExpired 0 && sampleCookieLib.matchesUrl cookie videoUrl) = session.cookies := by
    refine filter_eq_self.mpr fun cookie hcookie => ?_
    obtain ⟨name, -, rfl⟩ := mem_map.mp hcookie
    simp only [Cookie.isExpired, storedCookie, sampleCookieLib]
    decide
  have hrefused : ∀ header,
      SourceSession.cookieHeader (session.cookiesFor sampleCookieLib videoUrl 0) ≠ .ok header := by
    intro header h
    obtain ⟨hsum, hle⟩ := length_cookieHeader h
    have hperm : (session.cookiesFor sampleCookieLib videoUrl 0).Perm session.cookies := by
      unfold SourceSession.cookiesFor
      rw [hall]
      exact perm_insertionSort _ _
    rw [(hperm.map _).sum_eq] at hsum
    have hone : ∀ name ∈ ["a", "b", "c", "d"], byteLength name = 1 := by decide
    simp only [hsession, map_cons, map_nil, sum_cons, sum_nil, storedCookie, hlength,
      hone "a" (by simp), hone "b" (by simp), hone "c" (by simp), hone "d" (by simp)] at hsum
    unfold MAX_COOKIE_HEADER_BYTES at hle
    omega
  cases h : (loop sampleUrlLib sampleCookieLib sampleHeaderLib (sampleResources value) "GET"
      none).request { target := videoUrl } 0 with
  | error error => exact ⟨error, rfl⟩
  | ok request =>
    have hbuild := (media_request h).2
    unfold Resources.buildRequest at hbuild
    obtain ⟨applied, happlied, -⟩ := bind_eq_ok.mp hbuild
    have hfor : (sampleResources value).sessionFor videoUrl = some session := rfl
    unfold applySession at happlied
    rw [hfor] at happlied
    obtain ⟨header, hheader, -⟩ := apply_eq_ok.mp (mapError_eq_ok.mp happlied)
    exact absurd hheader (hrefused header)

theorem seen_sample (hlength : byteLength value = 16 * 1024) (visible : MediaState → Bool) :
    Dialogue.seen visible (fetch sampleUrlLib sampleCookieLib sampleHeaderLib
      (sampleResources value) videoUrl "GET" none sampleExchanges).1 = [] := by
  obtain ⟨error, herror⟩ := request_sample hlength
  unfold fetch sampleExchanges Dialogue.run
  simp only
  rw [herror]
  rfl

theorem foreign_sample (value value' : String) :
    foreign (sampleMedia value) = foreign (sampleMedia value') := rfl

theorem same_sample (value value' : String) :
    SameButCredentials (sampleMedia value) (sampleMedia value') := by
  refine ⟨rfl, rfl, rfl, ?_, rfl⟩
  show List.Forall₂ _ (["a", "b", "c", "d"].map _) (["a", "b", "c", "d"].map _)
  simp only [map_cons, map_nil]
  exact .cons rfl (.cons rfl (.cons rfl (.cons rfl .nil)))

/-- Two descriptors that differ in the values of their cookies, both accepted: with long values the
call ends before its first request, with short ones it follows a redirect to a foreign origin. -/
theorem credentials_not_scoped :
    SameButCredentials (sampleMedia longValue) (sampleMedia "x") ∧
      ∃ resources resources',
        withClient sampleUrlLib sampleCookieLib sampleHeaderLib (sampleMedia longValue) 0 =
            .ok resources ∧
          withClient sampleUrlLib sampleCookieLib sampleHeaderLib (sampleMedia "x") 0 =
            .ok resources' ∧
          Dialogue.seen (foreign (sampleMedia longValue)) (fetch sampleUrlLib sampleCookieLib
            sampleHeaderLib resources videoUrl "GET" none sampleExchanges).1 = [] ∧
          (Dialogue.seen (foreign (sampleMedia longValue)) (fetch sampleUrlLib sampleCookieLib
            sampleHeaderLib resources' videoUrl "GET" none sampleExchanges).1).length = 1 := by
  refine ⟨same_sample _ _, _, _, withClient_sample sendable_longValue,
    withClient_sample sendable_x, seen_sample byteLength_longValue _, ?_⟩
  rw [foreign_sample longValue "x"]
  decide +kernel

/-- The descriptor with short values, and a call that leads to a foreign origin. -/
theorem credentials_scoped_sample : ∃ resources,
    withClient sampleUrlLib sampleCookieLib sampleHeaderLib (sampleMedia "x") 0 = .ok resources ∧
      Scoped sampleCookieLib (sampleMedia "x") (fetch sampleUrlLib sampleCookieLib sampleHeaderLib
        resources videoUrl "GET" none sampleExchanges).1 :=
  ⟨_, withClient_sample sendable_x,
    (credentials_scoped (withClient_sample sendable_x) videoUrl "GET" none sampleExchanges).1⟩

/-! ### The cookies of a session -/

variable {session' : SourceSession} {cookie : Cookie}

/-- The cookies of a session are few and small, no two are one, and each stays one pair. -/
structure SourceSession.Bounded (session : SourceSession) : Prop where
  count : session.cookies.length ≤ BrowserCookie.MAX_SESSION_COOKIES
  bytes : (session.cookies.map SourceSession.cookieBytes).sum ≤ BrowserCookie.MAX_SESSION_BYTES
  keys : (session.cookies.map fun cookie => (cookie.domain, cookie.path, cookie.name)).Nodup
  pairs : ∀ cookie ∈ session.cookies, cookie.name ≠ "" ∧ '=' ∉ cookie.name.toList ∧
    ';' ∉ cookie.name.toList ∧ ';' ∉ cookie.valueTrimmed.toList

theorem SourceSession.Bounded.store (h : session.Bounded)
    (hstore : session.store cookie now = .ok session') : session'.Bounded := by
  unfold SourceSession.store at hstore
  simp only at hstore
  split_ifs at hstore with hbad hexpired hroom
  · cases hstore
    exact h
  all_goals
    have hsub := filter_sublist (l := session.cookies) (p := fun old => !old.isExpired now &&
      !(old.domain == cookie.domain && old.path == cookie.path && old.name == cookie.name))
    have hbytes := (hsub.map SourceSession.cookieBytes).sum_le_sum (fun _ _ => Nat.zero_le _)
    have hkept : SourceSession.Bounded { session with cookies := session.cookies.filter _ } :=
      ⟨hsub.length_le.trans h.count, hbytes.trans h.bytes, h.keys.sublist (hsub.map _),
        fun c hc => h.pairs c (hsub.subset hc)⟩
    cases hstore
  · exact hkept
  simp only [Bool.or_eq_true, not_or, Bool.not_eq_true, any_eq_false] at hbad
  obtain ⟨⟨hempty, hname⟩, hvalue⟩ := hbad
  simp only [Bool.or_eq_true, decide_eq_true_eq, not_or, not_lt] at hroom
  refine ⟨?_, hroom.2, ?_, ?_⟩
  · rw [length_append, length_singleton]
    exact Nat.lt_of_le_of_ne hkept.count hroom.1
  · rw [map_append, nodup_append]
    refine ⟨hkept.keys, nodup_singleton _, ?_⟩
    rw [forall_mem_map, map_singleton]
    rintro old hold key hkey heq
    rw [mem_singleton.mp hkey, Prod.mk.injEq, Prod.mk.injEq] at heq
    have hother := (mem_filter.mp hold).2
    simp [heq.1, heq.2.1, heq.2.2] at hother
  · rw [forall_mem_append, forall_mem_singleton]
    refine ⟨hkept.pairs, by rintro heq; simp [heq] at hempty, fun h => ?_, fun h => ?_, fun h => ?_⟩
    · exact absurd (hname _ h) (by decide)
    · exact absurd (hname _ h) (by decide)
    · exact absurd (hvalue _ h) (by decide)

/-- The sessions that imports of cookies and answers of sources make of one without cookies. -/
inductive Kept (cookieLib : CookieLib) : SourceSession → Prop
  | fresh (s : SourceSession) : s.cookies = [] → Kept cookieLib s
  | imported {s s' url cookies t} : Kept cookieLib s →
      SourceSession.importBrowserCookies cookieLib s url cookies t = .ok s' → Kept cookieLib s'
  | received {s s' headers url t} : Kept cookieLib s →
      SourceSession.receive cookieLib s headers url t = .ok s' → Kept cookieLib s'

end Qbutt.Http
