import Qbutt.Server.RequestParser

/-!
# Framing of requests

What the parser says of a request depends on the bytes of the request only (`stable_doParse`): it
looks for the first empty line, and for the body that the headers announce.  So a connection gives
the same requests to its handler however the bytes arrive (`requests_framed`).
-/

namespace Qbutt.Server

open QByteArray RequestParser List

variable {qt : QtText}

/-! ### The parser -/

/-- The size of the body that the headers announce. -/
def bodyLength (qt : QtText) (request : Request) : Except Malformed ℕ :=
  if request.method = "GET" ∨ request.method = "HEAD" then .ok 0
  else if request.method = "POST" then
    if parseContentLength qt request < 0 ∨ (MAX_CONTENT_SIZE : ℤ) < parseContentLength qt request then
      .error .badRequest
    else .ok (parseContentLength qt request).toNat
  else .error (.badMethod request)

def withBody (qt : QtText) (request : Request) (body : Bytes) : Option Request :=
  if body = [] then some request else parsePostMessage qt request body

/-- The parser waits for the announced body, and reads nothing behind it. -/
theorem parseBody_eq (request : Request) (headerLength : ℕ) (data : Bytes) :
    parseBody qt request headerLength data =
      match bodyLength qt request with
      | .error error => .bad error
      | .ok n =>
        if (data.drop headerLength).length < n then .incomplete
        else
          match withBody qt request ((data.drop headerLength).take n) with
          | none => .bad .badRequest
          | some request => .ok request (headerLength + n) := by
  unfold parseBody bodyLength
  by_cases hget : request.method = "GET" ∨ request.method = "HEAD"
  · rw [if_pos hget, if_pos hget]
    simp [withBody]
  · rw [if_neg hget, if_neg hget]
    by_cases hpost : request.method = "POST"
    · rw [if_pos hpost, if_pos hpost]
      by_cases hneg : parseContentLength qt request < 0
      · rw [if_pos (Or.inl hneg)]
        exact if_pos hneg
      · by_cases hlong : (MAX_CONTENT_SIZE : ℤ) < parseContentLength qt request
        · rw [if_pos (Or.inr hlong)]
          show (if parseContentLength qt request < 0 then _ else _) = _
          rw [if_neg hneg, if_pos hlong]
        · rw [if_neg (not_or.mpr ⟨hneg, hlong⟩)]
          show (if parseContentLength qt request < 0 then _ else _) = _
          rw [if_neg hneg, if_neg hlong]
          obtain ⟨n, hn⟩ := Int.eq_ofNat_of_zero_le (not_lt.mp hneg)
          simp only [hn, Int.toNat_natCast]
          by_cases hzero : n = 0
          · simp [hzero, withBody]
          · have hpos : (0 : ℤ) < (n : ℤ) := by omega
            rw [if_pos hpos]
            by_cases hless : (data.drop headerLength).length < n
            · rw [if_pos hless, if_pos]
              rw [length_take]
              omega
            · rw [if_neg hless, if_neg]
              · have hne : (data.drop headerLength).take n ≠ [] := by
                  intro hnil
                  have hlength := congrArg List.length hnil
                  rw [length_take, length_nil] at hlength
                  omega
                cases hparse : parsePostMessage qt request ((data.drop headerLength).take n) with
                | none => simp [withBody, hne, hparse]
                | some request => simp [withBody, hne, hparse]
              · rw [length_take]
                omega
    · rw [if_neg hpost, if_neg hpost]

/-- What the headers say: the request, and the size of its body. -/
def parseHead (qt : QtText) (headers : Bytes) : Except Malformed (Request × ℕ) :=
  match parseStartLines qt headers with
  | none => .error .badRequest
  | some request => (bodyLength qt request).map fun n => (request, n)

theorem doParse_eq (data : Bytes) :
    doParse qt data =
      match indexOf EOH data with
      | none => .incomplete
      | some headerEnd =>
        match parseHead qt (data.take headerEnd) with
        | .error error => .bad error
        | .ok (request, n) =>
          if (data.drop (headerEnd + EOH.length)).length < n then .incomplete
          else
            match withBody qt request ((data.drop (headerEnd + EOH.length)).take n) with
            | none => .bad .badRequest
            | some request => .ok request (headerEnd + EOH.length + n) := by
  unfold doParse parseHead
  cases indexOf EOH data with
  | none => rfl
  | some headerEnd =>
    simp only
    cases parseStartLines qt (data.take headerEnd) with
    | none => rfl
    | some request =>
      simp only
      rw [parseBody_eq]
      cases bodyLength qt request <;> rfl

/-- A request that was parsed: where its headers end and what they and the body say. -/
theorem doParse_ok {data : Bytes} {request' : Request} {size : ℕ}
    (h : doParse qt data = .ok request' size) :
    ∃ headerEnd request n, indexOf EOH data = some headerEnd ∧
      parseHead qt (data.take headerEnd) = .ok (request, n) ∧
      n ≤ (data.drop (headerEnd + EOH.length)).length ∧
      withBody qt request ((data.drop (headerEnd + EOH.length)).take n) = some request' ∧
      size = headerEnd + EOH.length + n := by
  rw [doParse_eq] at h
  cases hend : indexOf EOH data with
  | none =>
    rw [hend] at h
    cases h
  | some headerEnd =>
    rw [hend] at h
    simp only at h
    cases hhead : parseHead qt (data.take headerEnd) with
    | error error =>
      rw [hhead] at h
      cases h
    | ok head =>
      obtain ⟨request, n⟩ := head
      rw [hhead] at h
      simp only at h
      split_ifs at h with hshort
      cases hbody : withBody qt request ((data.drop (headerEnd + EOH.length)).take n) with
      | none =>
        rw [hbody] at h
        cases h
      | some request₁ =>
        rw [hbody] at h
        simp only [Parsed.ok.injEq] at h
        obtain ⟨rfl, rfl⟩ := h
        exact ⟨headerEnd, request, n, rfl, hhead, not_lt.mp hshort, hbody, rfl⟩

theorem doParse_of_parts {data : Bytes} {headerEnd n : ℕ} {request request' : Request}
    {body : Bytes} (hend : indexOf EOH data = some headerEnd)
    (hhead : parseHead qt (data.take headerEnd) = .ok (request, n))
    (hbody : (data.drop (headerEnd + EOH.length)).take n = body) (hlength : body.length = n)
    (hrequest : withBody qt request body = some request') :
    doParse qt data = .ok request' (headerEnd + EOH.length + n) := by
  have hnot : ¬ (data.drop (headerEnd + EOH.length)).length < n := by
    have hle := congrArg List.length hbody
    rw [length_take] at hle
    omega
  rw [doParse_eq, hend]
  simp only
  rw [hhead]
  simp only
  rw [if_neg hnot, hbody, hrequest]

theorem stable_doParse (qt : QtText) : StableParser (doParse qt) where
  size_pos h := by
    obtain ⟨headerEnd, request, n, -, -, -, -, rfl⟩ := doParse_ok h
    have hlength : EOH.length = 4 := rfl
    omega
  size_le h := by
    obtain ⟨headerEnd, request, n, hend, -, hn, -, rfl⟩ := doParse_ok h
    have hle := indexOf_le hend
    rw [length_drop] at hn
    omega
  short {data} _ _ h m hm := by
    obtain ⟨headerEnd, request, n, hend, hhead, hn, -, rfl⟩ := doParse_ok h
    rw [doParse_eq]
    by_cases hheaders : m < headerEnd + EOH.length
    · rw [indexOf_take hend hheaders]
    · -- the headers are complete, so they announce the body that is not
      have hle := not_lt.mp hheaders
      have htake : (data.take m).take headerEnd = data.take headerEnd := by
        rw [take_take, Nat.min_eq_left (by omega)]
      rw [indexOf_take_of_le hend hle]
      simp only
      rw [htake, hhead]
      simp only
      refine if_pos ?_
      rw [length_drop, length_take]
      omega
  extend {data} _ _ h rest := by
    obtain ⟨headerEnd, request, n, hend, hhead, hn, hrequest, rfl⟩ := doParse_ok h
    have hle := indexOf_le hend
    rw [length_drop] at hn
    have hlength : (data.take (headerEnd + EOH.length + n)).length =
        headerEnd + EOH.length + n := by
      rw [length_take]
      omega
    refine doParse_of_parts (indexOf_append (indexOf_take_of_le hend (by omega)) rest) ?_ ?_ ?_
      hrequest
    · rw [take_append_of_le_length (by omega), take_take, Nat.min_eq_left (by omega)]
      exact hhead
    · rw [drop_append_of_le_length (by omega), drop_take, Nat.add_sub_cancel_left]
      refine take_left' ?_
      rw [length_take, length_drop]
      omega
    · rw [length_take, length_drop]
      omega
  bad_append {data} _ h rest := by
    rw [doParse_eq] at h ⊢
    cases hend : indexOf EOH data with
    | none =>
      rw [hend] at h
      cases h
    | some headerEnd =>
      have hle := indexOf_le hend
      rw [hend] at h
      rw [indexOf_append hend rest]
      simp only at h ⊢
      rw [take_append_of_le_length (by omega)]
      cases hhead : parseHead qt (data.take headerEnd) with
      | error error =>
        rw [hhead] at h
        exact h
      | ok head =>
        obtain ⟨request, n⟩ := head
        rw [hhead] at h
        simp only at h ⊢
        split_ifs at h with hshort
        have hnot : ¬ ((data ++ rest).drop (headerEnd + EOH.length)).length < n := by
          rw [drop_append_of_le_length (by omega), length_append]
          omega
        rw [if_neg hnot, drop_append_of_le_length (by omega), take_append_of_le_length (by omega)]
        exact h

/-! ### Connections -/

/-- The answer behind which a socket is closed, if it is. -/
def closing : Reader UInt8 Malformed → List Output
  | .waiting _ => []
  | .stopped error => [.reject error.status]
  | .exceeded => [.reject 413]

def Stands : Reader UInt8 Malformed → Connection → Prop
  | .waiting data, connection => connection = { receivedData := data }
  | _, connection => connection.closed = true

/-- What the handler gets of the requests of a stream. -/
def given (requests : List Request) : List Output := requests.map fun r => .request (handled r)

theorem readLoop_eq {fuel : ℕ} {data : Bytes} (hfuel : data.length ≤ fuel) :
    let result := Connection.readLoop qt fuel data
    let decoded := decodeFrom (doParse qt) fuel data
    result.1 = given decoded.1 ++ closing (decoded.2.held bufferLimit) ∧
      Stands (decoded.2.held bufferLimit) result.2 := by
  have hstable := stable_doParse qt
  induction fuel generalizing data with
  | zero =>
    obtain rfl : data = [] := length_eq_zero_iff.mp (Nat.le_zero.mp hfuel)
    exact ⟨rfl, rfl⟩
  | succ fuel ih =>
    simp only [Connection.readLoop, decodeFrom]
    by_cases hempty : data.isEmpty = true
    · obtain rfl : data = [] := by simpa using hempty
      exact ⟨rfl, rfl⟩
    rw [if_neg hempty, if_neg hempty]
    cases hparse : doParse qt data with
    | incomplete =>
      simp only [Ending.held]
      split_ifs with hlimit
      · exact ⟨rfl, rfl⟩
      · exact ⟨rfl, rfl⟩
    | bad error => exact ⟨rfl, rfl⟩
    | ok request size =>
      have hpos := hstable.size_pos hparse
      have hdrop : (data.drop size).length ≤ fuel := by
        rw [length_drop]
        omega
      obtain ⟨houtput, hstands⟩ := ih hdrop
      simp only
      rw [houtput]
      exact ⟨rfl, hstands⟩

theorem read_eq {connection : Connection} (hopen : connection.closed = false) (bytes : Bytes) :
    let result := connection.read qt bytes
    let read := (Reader.waiting connection.receivedData).feed (doParse qt) bufferLimit bytes
    result.1 = given read.1 ++ closing read.2 ∧ Stands read.2 result.2 := by
  have hloop := @readLoop_eq qt _ _ (le_refl (connection.receivedData ++ bytes).length)
  unfold Connection.read
  rw [hopen]
  simp only [Bool.false_eq_true, if_false]
  exact hloop

theorem run_closed {connection : Connection} (hclosed : connection.closed = true)
    (pieces : List Bytes) : connection.run qt pieces = ([], connection) := by
  induction pieces with
  | nil => rfl
  | cons bytes pieces ih =>
    unfold Connection.run Connection.read
    rw [if_pos hclosed]
    simp only
    rw [ih]
    rfl

/-- A connection does what a reader of the same data does. -/
theorem run_eq (pieces : List Bytes) {connection : Connection}
    (hopen : connection.closed = false) :
    let result := connection.run qt pieces
    let read := (Reader.waiting connection.receivedData).feedAll (doParse qt) bufferLimit pieces
    result.1 = given read.1 ++ closing read.2 ∧ Stands read.2 result.2 := by
  induction pieces generalizing connection with
  | nil =>
    obtain ⟨data, closed⟩ := connection
    obtain rfl : closed = false := hopen
    exact ⟨rfl, rfl⟩
  | cons bytes pieces ih =>
    obtain ⟨houtput, hstands⟩ := @read_eq qt _ hopen bytes
    simp only [Connection.run, Reader.feedAll]
    rw [houtput]
    cases hread : ((Reader.waiting connection.receivedData).feed (doParse qt) bufferLimit
        bytes).2 with
    | waiting rest =>
      rw [hread] at hstands
      have hnext : (connection.read qt bytes).2 = { receivedData := rest } := hstands
      obtain ⟨houtput', hstands'⟩ := @ih { receivedData := rest } rfl
      rw [hnext, houtput']
      refine ⟨?_, hstands'⟩
      simp [given, closing]
    | stopped error =>
      rw [hread] at hstands
      rw [run_closed hstands, StableParser.feedAll_stopped]
      exact ⟨by simp, hstands⟩
    | exceeded =>
      rw [hread] at hstands
      rw [run_closed hstands, StableParser.feedAll_exceeded]
      exact ⟨by simp, hstands⟩

/-- A connection reads the frames of its data and stops at the first malformed one, however the
data arrive. -/
theorem run_decode {pieces : List Bytes}
    (hfit : FramesFit (doParse qt) bufferLimit pieces.flatten) :
    let result := Connection.run qt {} pieces
    let decoded := decode (doParse qt) pieces.flatten
    result.1 = given decoded.1 ++ closing decoded.2.reader ∧ Stands decoded.2.reader result.2 := by
  have hrun := @run_eq qt pieces {} rfl
  have hfeed := (stable_doParse qt).feedAll_eq hfit
  simp only at hrun ⊢
  rw [hfeed] at hrun
  exact hrun

/-- Framing does not depend on packet boundaries.  The parser is stable; and for data whose frames
fit into the buffer, however they arrive, the handler gets the same requests, which are the
consecutive frames of the data, and the connection stops at the same malformed one. -/
theorem requests_framed (qt : QtText) :
    StableParser (doParse qt) ∧
      ∀ pieces : List Bytes, FramesFit (doParse qt) bufferLimit pieces.flatten →
        (∀ pieces' : List Bytes, pieces'.flatten = pieces.flatten →
          (Connection.run qt {} pieces').1 = (Connection.run qt {} pieces).1 ∧
            (Connection.run qt {} pieces').2.closed = (Connection.run qt {} pieces).2.closed ∧
            ((Connection.run qt {} pieces).2.closed = false →
              (Connection.run qt {} pieces').2 = (Connection.run qt {} pieces).2)) ∧
        ∃ parts requests rest, pieces.flatten = parts.flatten ++ rest ∧
          List.Forall₂ (fun part request => doParse qt part = .ok request part.length)
            parts requests ∧
          ((Connection.run qt {} pieces = (given requests, { receivedData := rest }) ∧
              (rest = [] ∨ doParse qt rest = .incomplete)) ∨
            ∃ error, doParse qt rest = .bad error ∧
              (Connection.run qt {} pieces).1 = given requests ++ [.reject error.status] ∧
              (Connection.run qt {} pieces).2.closed = true) := by
  refine ⟨stable_doParse qt, fun pieces hfit => ⟨fun pieces' heq => ?_, ?_⟩⟩
  · obtain ⟨houtput, hstands⟩ := run_decode hfit
    obtain ⟨houtput', hstands'⟩ := run_decode (heq ▸ hfit)
    rw [heq] at houtput' hstands'
    refine ⟨houtput'.trans houtput.symm, ?_⟩
    cases hending : (decode (doParse qt) pieces.flatten).2 with
    | waiting rest =>
      rw [hending] at hstands hstands'
      have hsame : (Connection.run qt {} pieces').2 = (Connection.run qt {} pieces).2 :=
        hstands'.trans hstands.symm
      rw [hsame]
      exact ⟨rfl, fun _ => rfl⟩
    | stopped error rest =>
      rw [hending] at hstands hstands'
      have hclosed : (Connection.run qt {} pieces).2.closed = true := hstands
      refine ⟨hstands'.trans hstands.symm, fun hopen => ?_⟩
      rw [hclosed] at hopen
      cases hopen
  · obtain ⟨parts, hparts, hrest⟩ := (stable_doParse qt).frames_decode pieces.flatten
    obtain ⟨houtput, hstands⟩ := run_decode hfit
    cases hending : (decode (doParse qt) pieces.flatten).2 with
    | waiting rest =>
      rw [hending] at hrest houtput hstands
      refine ⟨parts, _, rest, hrest.1, hparts, Or.inl ⟨?_, hrest.2⟩⟩
      exact Prod.ext (houtput.trans (append_nil _)) hstands
    | stopped error rest =>
      rw [hending] at hrest houtput hstands
      exact ⟨parts, _, rest, hrest.1, hparts, Or.inr ⟨error, hrest.2, houtput, hstands⟩⟩

def asciiText : QtText where
  fromUtf8 := fromLatin1
  fromPercentEncoding data := data
  toLower text := String.ofList (text.toList.map Char.toLower)
  toInt text := text.toInt?
  queryItems _ := []

/-- A request whose headers arrive in two pieces, and the first bytes of another one. -/
example : (Connection.run asciiText {} [ofText "GET / HTTP/1.1", [13], [10, 13, 10, 71]]) =
    ([.request { version := "1.1", method := "GET", path := "/" }], { receivedData := [71] }) := by
  rfl

end Qbutt.Server
