import Qbutt.Http.Source

/-!
# What source requests carry

A call of `SourceHttp.fetch` keeps its form, its session and its bounds, whatever the servers answer
(`fetch_contained`).

An answer leads either to the same request once more, if it has no form, or to the next redirect, with
the same form or without one (`Answered`, `answered_of_receive`); it never changes what the session
says about the authorization (`Credentials`).  All the rest follows from the checks that come before
every request (`Checked`).
-/

namespace Qbutt.Http

open SourceHttp

variable {urlLib : UrlLib} {cookieLib : CookieLib} {headerLib : HeaderLib} {http : SourceHttp}
  {call : FetchCall} {s s' : FetchState} {now : ℤ} {session session' : SourceSession} {url : Url}
  {request : Request} {response : Response}

/-! ### Checks -/

theorem require_eq_ok {ε : Type} {condition : Bool} {error : ε} :
    require condition error = .ok () ↔ condition = true := by
  unfold require
  split_ifs with h <;> simp [h]

/-- What the checks of an address say. -/
structure Checked (http : SourceHttp) (call : FetchCall) (s : FetchState) : Prop where
  https : validateHttpsUrl s.url = .ok ()
  sameOrigin : call.kind.sameOrigin call.allowedHosts = true →
    s.url.origin.same http.origin.origin = true
  form : s.form.isSome → s.url.origin.same http.origin.origin = true
  hosts : call.allowedHosts ≠ [] → (∃ host ∈ call.allowedHosts, s.url.hostStr = some host) ∧
    s.url.portOrKnownDefault = http.origin.portOrKnownDefault

theorem checked_of_checkUrl (h : checkUrl http call s = .ok ()) : Checked http call s := by
  unfold checkUrl at h
  obtain ⟨⟨⟩, hhttps, h⟩ := bind_eq_ok.mp h
  obtain ⟨⟨⟩, hsame, h⟩ := bind_eq_ok.mp h
  obtain ⟨⟨⟩, hform, h⟩ := bind_eq_ok.mp h
  have hsame' := require_eq_ok.mp hsame
  have hform' := require_eq_ok.mp hform
  have hhosts' := require_eq_ok.mp h
  refine ⟨hhttps, fun hkind => ?_, fun hsome => ?_, fun hne => ?_⟩
  · simpa [hkind] using hsame'
  · cases hs : s.form with
    | none => simp [hs] at hsome
    | some form => simpa [hs] using hform'
  · have hempty : call.allowedHosts.isEmpty = false := by simpa using hne
    simp only [hempty, Bool.false_or, Bool.and_eq_true, Option.any_eq_true, beq_iff_eq,
      List.contains_iff_mem] at hhosts'
    obtain ⟨⟨host, hhost, hmem⟩, hport⟩ := hhosts'
    exact ⟨⟨host, hmem, hhost⟩, hport⟩

/-! ### Sessions -/

/-- Where the authorization of a session goes, and what it is. -/
def SourceSession.credentials (session : SourceSession) : Origin × Option String :=
  (session.origin, session.authorization)

theorem credentials_store {cookie : Cookie} (h : session.store cookie now = .ok session') :
    session'.credentials = session.credentials := by
  unfold SourceSession.store at h
  simp only at h
  split_ifs at h <;>
    · cases h
      rfl

theorem credentials_receive {headers : List HeaderValue}
    (h : session.receive cookieLib headers url now = .ok session') :
    session'.credentials = session.credentials := by
  unfold SourceSession.receive at h
  refine foldlM_ok_induction (fun _ s => s.credentials = session.credentials) h rfl ?_
  intro done s header s' _ hs hstep
  split_ifs at hstep
  split at hstep
  · cases hstep
    exact hs
  · exact (credentials_store hstep).trans hs

theorem apply_eq_ok {request' : Request} :
    session.apply cookieLib headerLib request url now = .ok request' ↔
      ∃ header, SourceSession.cookieHeader (session.cookiesFor cookieLib url now) = .ok header ∧
        headerLib.headerValue header = true ∧
        request' = (request.header "cookie" header).addHeaders (session.ownHeaders url) := by
  unfold SourceSession.apply
  rw [bind_eq_ok]
  constructor
  · rintro ⟨header, hheader, h⟩
    obtain ⟨⟨⟩, hvalue, h⟩ := bind_eq_ok.mp h
    exact ⟨header, hheader, require_eq_ok.mp hvalue, (Except.ok.inj h).symm⟩
  · rintro ⟨header, hheader, hvalue, rfl⟩
    exact ⟨header, hheader, bind_eq_ok.mpr ⟨(), require_eq_ok.mpr hvalue, rfl⟩⟩

theorem authorization_ownHeaders {value : String}
    (h : ("authorization", value) ∈ session.ownHeaders url) :
    session.authorization = some value ∧ url.origin.same session.origin = true := by
  unfold SourceSession.ownHeaders at h
  split_ifs at h with hsame
  · have hvalue : session.authorization = some value := by simpa using h
    exact ⟨hvalue, hsame⟩
  · simp at h

/-! ### Requests -/

theorem buildRequest_spec (h : buildRequest cookieLib headerLib call s now = .ok request) :
    request.url = s.url ∧ request.body = s.form ∧
      ∀ value, ("authorization", value) ∈ request.headers → ∃ session, s.session = some session ∧
        session.authorization = some value ∧ s.url.origin.same session.origin = true := by
  have hbase : (baseRequest call s).url = s.url ∧ (baseRequest call s).body = s.form ∧
      ∀ value, ("authorization", value) ∉ (baseRequest call s).headers := by
    unfold baseRequest
    cases hform : s.form with
    | none => simp
    | some form =>
      simp only
      split_ifs <;> simp
  obtain ⟨hurl, hbody, hheaders⟩ := hbase
  have hlast : ∀ value, ("authorization", value) ∉ lastHeaders call := by
    intro value
    unfold lastHeaders
    simp
  unfold buildRequest at h
  cases hsession : s.session with
  | none =>
    rw [hsession] at h
    cases h
    exact ⟨hurl, hbody, fun value hmem => by simp [hheaders, hlast] at hmem⟩
  | some session =>
    rw [hsession] at h
    obtain ⟨applied, happlied, h⟩ := bind_eq_ok.mp h
    cases h
    obtain ⟨header, -, -, rfl⟩ := apply_eq_ok.mp happlied
    refine ⟨hurl, hbody, fun value hmem => ⟨session, rfl, ?_⟩⟩
    have hown : ("authorization", value) ∈ session.ownHeaders s.url := by
      simpa [hheaders value, hlast value] using hmem
    exact authorization_ownHeaders hown

/-! ### Answers -/

/-- What an answer makes of the variables: the request is sent once more, or a redirect is
followed. -/
inductive Answered (call : FetchCall) (s s' : FetchState) (status : ℕ) : Prop where
  | resent (hurl : s'.url = s.url) (hredirects : s'.redirects = s.redirects)
      (hform : s.form = none) (hform' : s'.form = none) (hretried : s.retried = false)
      (hretried' : s'.retried = true)
  | followed (hredirects : s'.redirects = s.redirects + 1) (hbound : s.redirects ≠ MAX_REDIRECTS)
      (hform : s'.form = s.form ∨ s'.form = none)
      (hdropped : status ≠ 307 → status ≠ 308 → s'.form = none)
      (hretried : s'.retried = s.retried)

theorem redirectForm_spec {kind : ResponseKind} {form form' : Option String} {status : ℕ}
    (h : redirectForm kind form status = .ok form') :
    (form' = form ∨ form' = none) ∧ (status ≠ 307 → status ≠ 308 → form' = none) := by
  unfold redirectForm at h
  split_ifs at h with hdrop hkind
  · cases h
    exact ⟨Or.inr rfl, fun _ _ => rfl⟩
  · cases h
    refine ⟨Or.inl rfl, fun h307 h308 => ?_⟩
    simpa [h307, h308] using hdrop

theorem redirect_eq_ok (h : redirect urlLib call s response = .ok s') :
    s.redirects ≠ MAX_REDIRECTS ∧ ∃ form url,
      redirectForm call.kind s.form response.status = .ok form ∧
        s' = { s with redirects := s.redirects + 1, url := url, form := form } := by
  unfold redirect at h
  obtain ⟨⟨⟩, hbound, h⟩ := bind_eq_ok.mp h
  obtain ⟨form, hform, h⟩ := bind_eq_ok.mp h
  refine ⟨by simpa using require_eq_ok.mp hbound, form, ?_⟩
  cases hlocation : (response.location.bind HeaderValue.toStr).bind (urlLib.join s.url) with
  | none =>
    rw [hlocation] at h
    cases h
  | some url =>
    rw [hlocation] at h
    exact ⟨url, hform, (Except.ok.inj h).symm⟩

theorem credentials_receiveSession {session : Option SourceSession}
    (h : receiveSession cookieLib s response now = .ok session) :
    session.map SourceSession.credentials = s.session.map SourceSession.credentials := by
  unfold receiveSession at h
  cases hs : s.session with
  | none =>
    rw [hs] at h
    cases h
    rfl
  | some old =>
    rw [hs] at h
    obtain ⟨received, hreceived, h⟩ := bind_eq_ok.mp h
    cases h
    rw [Option.map_some, Option.map_some, credentials_receive hreceived]

theorem answered_of_receive (h : receive urlLib cookieLib call s response now = .inl s') :
    Answered call s s' response.status ∧
      s'.session.map SourceSession.credentials = s.session.map SourceSession.credentials := by
  unfold receive at h
  cases hsession : receiveSession cookieLib s response now with
  | error error =>
    rw [hsession] at h
    cases h
  | ok session =>
    have hcredentials := credentials_receiveSession hsession
    rw [hsession] at h
    simp only at h
    split_ifs at h with hresend hredirect
    · cases h
      unfold resends at hresend
      simp only [Bool.and_eq_true, Option.isNone_iff_eq_none, Bool.not_eq_true'] at hresend
      obtain ⟨⟨⟨-, hform⟩, hretried⟩, -⟩ := hresend
      exact ⟨.resent rfl rfl hform hform hretried rfl, hcredentials⟩
    · cases hnext : redirect urlLib call { s with session } response with
      | error error =>
        rw [hnext] at h
        cases h
      | ok next =>
        rw [hnext] at h
        cases h
        obtain ⟨hbound, form, url, hform, rfl⟩ := redirect_eq_ok hnext
        obtain ⟨hkept, hdropped⟩ := redirectForm_spec hform
        exact ⟨.followed rfl hbound hkept hdropped rfl, hcredentials⟩

/-! ### Calls -/

/-- How often a list repeats an element right away. -/
def repeats : List ℕ → ℕ
  | a :: b :: l => (if a = b then 1 else 0) + repeats (b :: l)
  | _ => 0

def answerStatus : Option (Except Error Response) → Option ℕ
  | some (.ok response) => some response.status
  | _ => none

structure Contained (http : SourceHttp) (call : FetchCall) (session : Option SourceSession)
    (trace : List (Sent FetchState Request (Except Error Response))) : Prop where
  https : ∀ sent ∈ trace, validateHttpsUrl sent.request.url = .ok ()
  /-- a form goes to the fixed origin -/
  formOrigin : ∀ sent ∈ trace, sent.request.body.isSome →
    sent.request.url.origin.same http.origin.origin = true
  /-- and is dropped by some redirects -/
  formDropped : trace.Pairwise fun sent later =>
    answerStatus sent.answer ∈ [some 301, some 302, some 303] → later.request.body = none
  /-- and is sent once for each redirect -/
  formOnce : trace.Pairwise fun sent later =>
    sent.state.redirects = later.state.redirects →
      sent.request.body = none ∧ later.request.body = none
  sameOrigin : call.kind ≠ .image → call.kind ≠ .playlist → call.allowedHosts = [] →
    ∀ sent ∈ trace, sent.request.url.origin.same http.origin.origin = true
  hosts : call.allowedHosts ≠ [] → ∀ sent ∈ trace,
    (∃ host ∈ call.allowedHosts, sent.request.url.hostStr = some host) ∧
      sent.request.url.portOrKnownDefault = http.origin.portOrKnownDefault
  authorization : ∀ sent ∈ trace, ∀ value, ("authorization", value) ∈ sent.request.headers →
    ∃ source, session = some source ∧ source.authorization = some value ∧
      sent.request.url.origin.same source.origin = true
  /-- at most one request is sent once more -/
  retries : repeats (trace.map fun sent => sent.state.redirects) ≤ 1
  redirects : ∀ sent ∈ trace, sent.state.redirects ≤ MAX_REDIRECTS
  length : trace.length ≤ 7

/-- How many more answers a call can use. -/
def FetchState.left (s : FetchState) : ℕ :=
  (MAX_REDIRECTS - s.redirects) + if s.retried then 0 else 1

/-- What holds in every state of a call: the bound, and what the session says about the
authorization. -/
structure Running (session : Option SourceSession) (s : FetchState) : Prop where
  redirects : s.redirects ≤ MAX_REDIRECTS
  credentials : s.session.map SourceSession.credentials = session.map SourceSession.credentials

theorem answered_of_loops {answer : Except Error Response}
    (h : (loops urlLib cookieLib headerLib http call).answer s answer now = .inl s') :
    ∃ response, answer = .ok response ∧ Answered call s s' response.status ∧
      s'.session.map SourceSession.credentials = s.session.map SourceSession.credentials := by
  cases answer with
  | error error => cases h
  | ok response => exact ⟨response, rfl, answered_of_receive h⟩

/-- Every answer that does not end the call uses up one of the answers that are left. -/
theorem running_step {session : Option SourceSession} (s : FetchState)
    (answer : Except Error Response) (now : ℤ) (s' : FetchState) (h : Running session s)
    (hstep : (loops urlLib cookieLib headerLib http call).answer s answer now = .inl s') :
    Running session s' ∧ s'.left < s.left := by
  obtain ⟨response, -, hanswered, hcredentials⟩ := answered_of_loops hstep
  have hle := h.redirects
  unfold FetchState.left
  cases hanswered with
  | resent hurl hredirects hform hform' hretried hretried' =>
    refine ⟨⟨by omega, hcredentials.trans h.credentials⟩, ?_⟩
    rw [hredirects, hretried, hretried']
    simp
  | followed hredirects hbound hform hdropped hretried =>
    refine ⟨⟨by omega, hcredentials.trans h.credentials⟩, ?_⟩
    rw [hredirects, hretried]
    omega

theorem request_of_loops
    (h : (loops urlLib cookieLib headerLib http call).request s now = .ok request) :
    Checked http call s ∧ buildRequest cookieLib headerLib call s now = .ok request := by
  unfold loops at h
  simp only at h
  split at h
  · rename_i built hbuilt
    cases h
    obtain ⟨⟨⟩, hcheck, hbuild⟩ := bind_eq_ok.mp hbuilt
    exact ⟨checked_of_checkUrl hcheck, hbuild⟩
  · cases h

section Traces

variable {s : FetchState} {trace : List (Sent FetchState Request (Except Error Response))}

theorem noForm (h : (loops urlLib cookieLib headerLib http call).Trace s trace)
    (hs : s.form = none) : ∀ sent ∈ trace, sent.request.body = none := by
  have hkept : ∀ s answer now s', s.form = none →
      (loops urlLib cookieLib headerLib http call).answer s answer now = .inl s' →
        s'.form = none := by
    intro s answer now s' hs hstep
    obtain ⟨response, -, hanswered, -⟩ := answered_of_loops hstep
    cases hanswered with
    | resent hurl hredirects hform hform' => exact hform'
    | followed hredirects hbound hform =>
      rcases hform with hform | hform
      · rw [hform, hs]
      · exact hform
  intro sent hsent
  obtain ⟨hform, t, hrequest⟩ := h.invariant hkept hs sent hsent
  rw [(buildRequest_spec (request_of_loops hrequest).2).2.1, hform]

/-- Later requests belong to later redirects. -/
theorem redirects_le (h : (loops urlLib cookieLib headerLib http call).Trace s trace) :
    ∀ sent ∈ trace, s.redirects ≤ sent.state.redirects := by
  intro sent hsent
  refine (h.invariant (I := fun s' => s.redirects ≤ s'.redirects) ?_ le_rfl sent hsent).1
  intro s₁ answer now s' hs hstep
  obtain ⟨response, -, hanswered, -⟩ := answered_of_loops hstep
  cases hanswered with
  | resent hurl hredirects => omega
  | followed hredirects => omega

theorem formDropped (h : (loops urlLib cookieLib headerLib http call).Trace s trace) :
    trace.Pairwise fun sent later =>
      answerStatus sent.answer ∈ [some 301, some 302, some 303] → later.request.body = none := by
  refine h.pairwise_of_tail ?_
  intro s request answer t t' s' trace _ hnext htrace later hlater hstatus
  obtain ⟨response, rfl, hanswered, -⟩ := answered_of_loops hnext
  have hother : response.status ≠ 307 ∧ response.status ≠ 308 := by
    constructor <;>
      · intro heq
        simp [answerStatus, heq] at hstatus
  cases hanswered with
  | resent hurl hredirects hform hform' => exact noForm htrace hform' later hlater
  | followed hredirects hbound hform hdropped =>
    exact noForm htrace (hdropped hother.1 hother.2) later hlater

theorem formOnce (h : (loops urlLib cookieLib headerLib http call).Trace s trace) :
    trace.Pairwise fun sent later =>
      sent.state.redirects = later.state.redirects →
        sent.request.body = none ∧ later.request.body = none := by
  refine h.pairwise_of_tail ?_
  intro s request answer t t' s' trace hrequest hnext htrace later hlater heq
  obtain ⟨response, rfl, hanswered, -⟩ := answered_of_loops hnext
  cases hanswered with
  | resent hurl hredirects hform hform' =>
    have hbody := (buildRequest_spec (request_of_loops hrequest).2).2.1
    exact ⟨hbody.trans hform, noForm htrace hform' later hlater⟩
  | followed hredirects =>
    -- a redirect was followed in between
    have hle := redirects_le htrace later hlater
    have heq' : s.redirects = later.state.redirects := heq
    omega

theorem repeats_le (h : (loops urlLib cookieLib headerLib http call).Trace s trace) :
    repeats (trace.map fun sent => sent.state.redirects) ≤ if s.retried then 0 else 1 := by
  induction h with
  | nil => exact Nat.zero_le _
  | last answer h => exact Nat.zero_le _
  | @next s s' request answer t t' trace h hnext htrace ih =>
    obtain ⟨response, -, hanswered, -⟩ := answered_of_loops hnext
    cases trace with
    | nil => exact Nat.zero_le _
    | cons sent trace =>
      have hhead : sent.state = s' := by
        cases htrace <;> rfl
      simp only [List.map_cons, repeats, hhead] at ih ⊢
      cases hanswered with
      | resent hurl hredirects hform hform' hretried hretried' =>
        rw [hretried', if_pos rfl] at ih
        rw [hretried, if_pos hredirects.symm]
        simp only [Bool.false_eq_true, if_false]
        omega
      | followed hredirects hbound hform hdropped hretried =>
        have hne : ¬ s.redirects = s'.redirects := by omega
        rw [hretried] at ih
        simpa [hne] using ih

end Traces

/-- A call of `fetch` keeps its form, its session and its bounds, whatever the servers answer, and it
ends when enough answers have come. -/
theorem fetch_contained (http : SourceHttp) (call : FetchCall) (url : Url) (form : Option String)
    (session : Option SourceSession) (exchanges : List (Exchange (Except Error Response))) :
    let result := fetch urlLib cookieLib headerLib http call url form session exchanges
    Contained http call session result.1 ∧
      ((∀ exchange ∈ exchanges, exchange.answer.isSome) → 7 ≤ exchanges.length →
        result.2.isSome) := by
  unfold fetch
  cases checkCall http call url form session with
  | error error =>
    refine ⟨⟨?_, ?_, .nil, .nil, ?_, ?_, ?_, Nat.zero_le _, ?_, Nat.zero_le _⟩, fun _ _ => rfl⟩
    all_goals simp
  | ok _ =>
    set start : FetchState := { url := url, form := form, session := session } with hstart
    have htrace := (loops urlLib cookieLib headerLib http call).trace_run exchanges start
    have hrunning : Running session start := ⟨Nat.zero_le _, rfl⟩
    have hinv := htrace.invariant
      (fun s answer now s' hs hstep => (running_step s answer now s' hs hstep).1) hrunning
    have hrequest : ∀ sent ∈ ((loops urlLib cookieLib headerLib http call).run exchanges start).1,
        Checked http call sent.state ∧ sent.request.url = sent.state.url ∧
          sent.request.body = sent.state.form := by
      intro sent hsent
      obtain ⟨-, t, ht⟩ := hinv sent hsent
      obtain ⟨hchecked, hbuilt⟩ := request_of_loops ht
      obtain ⟨hurl, hbody, -⟩ := buildRequest_spec hbuilt
      exact ⟨hchecked, hurl, hbody⟩
    constructor
    · constructor
      case https =>
        intro sent hsent
        obtain ⟨hchecked, hurl, -⟩ := hrequest sent hsent
        rw [hurl]
        exact hchecked.https
      case formOrigin =>
        intro sent hsent hbody
        obtain ⟨hchecked, hurl, hform⟩ := hrequest sent hsent
        rw [hurl]
        rw [hform] at hbody
        exact hchecked.form hbody
      case formDropped => exact formDropped htrace
      case formOnce => exact formOnce htrace
      case sameOrigin =>
        intro himage hplaylist hhosts sent hsent
        obtain ⟨hchecked, hurl, -⟩ := hrequest sent hsent
        rw [hurl]
        refine hchecked.sameOrigin ?_
        rw [hhosts]
        cases hkind : call.kind <;> simp_all [ResponseKind.sameOrigin]
      case hosts =>
        intro hhosts sent hsent
        obtain ⟨hchecked, hurl, -⟩ := hrequest sent hsent
        rw [hurl]
        exact hchecked.hosts hhosts
      case authorization =>
        intro sent hsent value hmem
        obtain ⟨hrun, t, ht⟩ := hinv sent hsent
        obtain ⟨-, hbuilt⟩ := request_of_loops ht
        obtain ⟨hurl, -, hauthorization⟩ := buildRequest_spec hbuilt
        obtain ⟨current, hcurrent, hvalue, horigin⟩ := hauthorization value hmem
        have hcredentials := hrun.credentials
        rw [hcurrent] at hcredentials
        obtain ⟨source, hsource, heq⟩ := Option.map_eq_some_iff.mp hcredentials.symm
        obtain ⟨hsame, hauth⟩ := Prod.ext_iff.mp heq
        refine ⟨source, hsource, hauth.trans hvalue, ?_⟩
        rw [hurl]
        have hsame' : source.origin = current.origin := hsame
        rw [hsame']
        exact horigin
      case retries => exact repeats_le htrace
      case redirects => exact fun sent hsent => (hinv sent hsent).1.redirects
      case length => exact htrace.length_le running_step hrunning
    · intro hanswered hlength
      exact Dialogue.ends running_step hanswered hrunning hlength

end Qbutt.Http
