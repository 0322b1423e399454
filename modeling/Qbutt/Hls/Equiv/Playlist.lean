import Qbutt.Algorithm.Except
import Qbutt.Hls.Equiv.Attributes

/-!
# Playlists: correctness

`Rewrites` says what is wanted of the lines that `media` returns: put together they are the playlist,
durations and segments take turns, and with local names for the addresses no other address is left.
The turns are always right (`mediaLoop_turns`); the rest is exactly for playlists in which `URI=` stands
only where the address of a map is read (`media_rewrites_iff`).
-/

namespace Qbutt.Hls

open List

open Qbutt.Rust (stripPrefix splitOnce splitOnce_append splitOnce_eq_some splitAtByte
  splitAtByte_eq_some utf8Length)

/-! ### What is wanted -/

inductive Kind where
  | extinf
  | segment
  deriving DecidableEq

def mapTag : Text := "#EXT-X-MAP:".toList

/-- The durations and the segments among the lines. -/
def kind (line : Text) : Option Kind :=
  if !startsWith line "#" then some .segment
  else if startsWith line "#EXTINF:" then some .extinf
  else none

def Line.text : Line → Text
  | .tag line => line
  | .resource before uri after => before ++ (uri ++ after)

/-- A tag that a playlist may have, or a comment. -/
def IsListed (line : Text) : Prop :=
  String.ofList (before ':' line) ∈ listedTags ∨ startsWith line "#EXTINF:" = true ∨
    line = "#EXT-X-KEY:METHOD=NONE".toList ∨
    (startsWith line "#" = true ∧ startsWith line "#EXT-X-" = false)

/-- A resource that is a segment, or a map whose address is read back as any name that is put in its
place. -/
def ReadsBack (before uri after : Text) : Prop :=
  (before = [] ∧ after = [] ∧ startsWith uri "#" = false) ∨
    ∃ front, before = mapTag ++ front ∧ ∀ name : Text, '"' ∉ name → ',' ∉ name →
      attributeOf (front ++ (name ++ after)) "URI" = some name

/-- What is wanted of the lines of a playlist. -/
structure Rewrites (lines : List Text) (items : List Line) : Prop where
  joined : items.map Line.text = lines
  turns : ∃ n, 0 < n ∧ lines.filterMap kind = (List.replicate n [Kind.extinf, .segment]).flatten
  ended : "#EXT-X-ENDLIST".toList ∈ lines
  clear : ∀ line ∈ lines, startsWith line "#EXT-X-KEY" = true →
    line = "#EXT-X-KEY:METHOD=NONE".toList
  tags : ∀ line, .tag line ∈ items → IsListed line ∧ contains line "URI=" = false
  resources : ∀ before uri after, .resource before uri after ∈ items → ReadsBack before uri after

/-- `URI=` stands in no duration, and the first `URI="` of a map is where its address is read. -/
structure Consistent (lines : List Text) : Prop where
  durations : ∀ line ∈ lines, startsWith line "#EXTINF:" = true → contains line "URI=" = false
  maps : ∀ attributes front rest, mapTag ++ attributes ∈ lines →
    splitOnce attributes uriStart = some (front, rest) → Readable front rest

/-! ### Lines -/

/-- What is known of a line that is accepted, and of what becomes of it. -/
inductive Accepted : Progress → Text → Line → Progress → Prop where
  | segment {progress : Progress} {line : Text} (h : startsWith line "#" = false)
      (hpending : progress.pendingSegment = true) :
      Accepted progress line (.resource [] line [])
        ⟨false, progress.segments + 1, progress.resources + 1⟩
  | extinf {progress : Progress} {duration : Text} (hpending : progress.pendingSegment = false) :
      Accepted progress ("#EXTINF:".toList ++ duration) (.tag ("#EXTINF:".toList ++ duration))
        { progress with pendingSegment := true }
  | map {progress : Progress} {attributes front rest uri found after : Text}
      (huri : attributeOf attributes "URI" = some uri)
      (hsplit : splitOnce attributes uriStart = some (front, rest))
      (hrest : rest = found ++ '"' :: after) (hlength : utf8Length found = utf8Length uri) :
      Accepted progress (mapTag ++ attributes) (.resource (mapTag ++ (front ++ uriStart)) uri ('"' :: after))
        { progress with resources := progress.resources + 1 }
  | key {progress : Progress} :
      Accepted progress "#EXT-X-KEY:METHOD=NONE".toList (.tag "#EXT-X-KEY:METHOD=NONE".toList) progress
  | other {progress : Progress} {line : Text} (h : startsWith line "#" = true)
      (hextinf : startsWith line "#EXTINF:" = false) (hmap : startsWith line "#EXT-X-MAP:" = false)
      (hkey : startsWith line "#EXT-X-KEY:" = false) (hrefused : isRefused line = false) :
      Accepted progress line (.tag line) progress

variable {text rest attributes line front : Text}

theorem stripPrefix_eq_some {pattern : Text} (h : stripPrefix text pattern = some rest) :
    text = pattern ++ rest := by
  unfold stripPrefix at h
  split_ifs at h with hprefix
  obtain ⟨tail, rfl⟩ := isPrefixOf_iff_prefix.mp hprefix
  rw [← Option.some.inj h, drop_left]

theorem stripPrefix_eq_none {pattern : String} (h : stripPrefix text pattern.toList = none) :
    startsWith text pattern = false := by
  unfold stripPrefix at h
  split_ifs at h with hprefix
  exact Bool.eq_false_iff.mpr hprefix

theorem mapLine_eq_ok {item : Line} (h : mapLine (mapTag ++ attributes) attributes = .ok item) :
    ∃ front rest uri found after, attributeOf attributes "URI" = some uri ∧
      splitOnce attributes uriStart = some (front, rest) ∧ rest = found ++ '"' :: after ∧
      utf8Length found = utf8Length uri ∧
      item = .resource (mapTag ++ (front ++ uriStart)) uri ('"' :: after) := by
  have hsplit : splitOnce (mapTag ++ attributes) uriStart =
      (splitOnce attributes uriStart).map fun parts => (mapTag ++ parts.1, parts.2) :=
    splitOnce_append (by decide) attributes
  unfold mapLine at h
  split_ifs at h
  rw [show "URI=\"".toList = uriStart from rfl, hsplit] at h
  cases huri : attributeOf attributes "URI" with
  | none =>
    rw [huri] at h
    cases h
  | some uri =>
    cases hfront : splitOnce attributes uriStart with
    | none =>
      rw [huri, hfront] at h
      cases h
    | some parts =>
      obtain ⟨front, rest⟩ := parts
      rw [huri, hfront, Option.map_some] at h
      dsimp only at h
      split at h
      · rename_i found after hbyte
        obtain ⟨hrest, hlength⟩ := splitAtByte_eq_some hbyte
        split_ifs at h
        cases h
        exact ⟨front, rest, uri, found, after, rfl, rfl, hrest, hlength,
          by rw [append_assoc]⟩
      · cases h

theorem mediaLine_eq_ok {progress progress' : Progress} {item : Line}
    (h : mediaLine progress line = .ok (item, progress')) :
    Accepted progress line item progress' := by
  unfold mediaLine at h
  by_cases hhash : (!startsWith line "#") = true
  · rw [if_pos hhash] at h
    split_ifs at h with hpending
    cases h
    exact .segment (by simpa using hhash) (by simpa using hpending)
  · rw [if_neg hhash] at h
    cases hextinf : stripPrefix line "#EXTINF:".toList with
    | some duration =>
      obtain rfl := stripPrefix_eq_some hextinf
      rw [hextinf] at h
      dsimp only at h
      split_ifs at h with hbad
      cases h
      rw [Bool.or_eq_true, not_or] at hbad
      exact .extinf (Bool.eq_false_iff.mpr hbad.1)
    | none =>
      rw [hextinf] at h
      dsimp only at h
      cases hmap : stripPrefix line "#EXT-X-MAP:".toList with
      | some attributes =>
        obtain rfl := stripPrefix_eq_some hmap
        rw [hmap] at h
        dsimp only at h
        obtain ⟨resource, hresource, h⟩ := bind_eq_ok.mp h
        cases h
        obtain ⟨front, rest, uri, found, after, huri, hsplit, hrest, hlength, rfl⟩ :=
          mapLine_eq_ok hresource
        exact .map huri hsplit hrest hlength
      | none =>
        rw [hmap] at h
        dsimp only at h
        cases hkey : stripPrefix line "#EXT-X-KEY:".toList with
        | some attributes =>
          obtain rfl := stripPrefix_eq_some hkey
          rw [hkey] at h
          dsimp only at h
          split_ifs at h with hnone
          cases h
          obtain rfl := not_not.mp hnone
          exact .key
        | none =>
          rw [hkey] at h
          dsimp only at h
          split_ifs at h with hrefused
          cases h
          exact .other (by simpa using hhash) (stripPrefix_eq_none hextinf)
            (stripPrefix_eq_none hmap) (stripPrefix_eq_none hkey) (Bool.eq_false_iff.mpr hrefused)

/-! ### Prefixes -/

theorem startsWith_trans {short long : String} (h : short.toList <+: long.toList)
    (hlong : startsWith text long = true) : startsWith text short = true :=
  isPrefixOf_iff_prefix.mpr (h.trans ( isPrefixOf_iff_prefix.mp hlong))

/-- What a line begins with before its first colon, it begins with. -/
theorem startsWith_before {c : Char} {pattern : String} (hc : c ∉ pattern.toList) :
    startsWith (before c line) pattern = startsWith line pattern := by
  unfold startsWith before
  generalize pattern.toList = pattern at hc
  induction pattern generalizing line with
  | nil => rw [isPrefixOf_nil_left, isPrefixOf_nil_left]
  | cons p pattern ih =>
    have hp : p ≠ c := fun heq => hc (heq ▸ mem_cons_self)
    cases line with
    | nil => rfl
    | cons d line =>
      by_cases hd : d = c
      · have hpd : (p == d) = false := beq_eq_false_iff_ne.mpr (hd ▸ hp)
        rw [takeWhile_cons_of_neg (by simp [hd]), isPrefixOf_cons₂, hpd]
        rfl
      · rw [takeWhile_cons_of_pos (by simp [hd]), isPrefixOf_cons₂,
          isPrefixOf_cons₂, ih fun hmem => hc (mem_cons_of_mem p hmem)]

/-! ### Single lines -/

variable {progress progress' : Progress} {line : Text} {item : Line} {lines : List Text}
  {items : List Line}

theorem Accepted.clear (h : Accepted progress line item progress')
    (hkey : startsWith line "#EXT-X-KEY" = true) : line = "#EXT-X-KEY:METHOD=NONE".toList := by
  cases h with
  | segment h =>
    rw [startsWith_trans (by decide) hkey] at h
    cases h
  | extinf => cases hkey
  | map => cases hkey
  | key => rfl
  | other h _ _ hcolon hrefused =>
    have hbefore : startsWith (before ':' line) "#EXT-X-KEY" = true := by
      rw [startsWith_before (by decide)]
      exact hkey
    unfold isRefused at hrefused
    rw [Bool.or_assoc, Bool.or_eq_false_iff, startsWith_trans (by decide) hbefore, Bool.true_and,
      Bool.not_eq_false', contains_iff_mem] at hrefused
    have hnone : ∀ tag ∈ listedTags, startsWith tag.toList "#EXT-X-KEY" = false := by decide +kernel
    have hfalse := hnone _ hrefused.1
    rw [String.toList_ofList, hbefore] at hfalse
    cases hfalse

theorem Accepted.extinf_of_startsWith (h : Accepted progress line item progress')
    (hextinf : startsWith line "#EXTINF:" = true) : item = .tag line := by
  cases h with
  | segment h =>
    rw [startsWith_trans (by decide) hextinf] at h
    cases h
  | extinf => rfl
  | map => cases hextinf
  | key => rfl
  | other => rfl

theorem Accepted.listed (h : Accepted progress line (.tag line) progress')
    (hdurations : startsWith line "#EXTINF:" = true → contains line "URI=" = false) :
    IsListed line ∧ contains line "URI=" = false := by
  cases h with
  | extinf => exact ⟨.inr (.inl rfl), hdurations rfl⟩
  | key => exact ⟨.inr (.inr (.inl rfl)), by decide +kernel⟩
  | other h _ _ _ hrefused =>
    unfold isRefused at hrefused
    rw [Bool.or_eq_false_iff, Bool.or_eq_false_iff, Bool.and_eq_false_iff] at hrefused
    obtain ⟨⟨htag, huri⟩, -⟩ := hrefused
    refine ⟨?_, huri⟩
    rcases htag with htag | htag
    · rw [startsWith_before (by decide)] at htag
      exact .inr (.inr (.inr ⟨h, htag⟩))
    · exact .inl (contains_iff_mem.mp (by simpa using htag))

theorem Accepted.kind_eq (h : Accepted progress line item progress') :
    (kind line = some .segment ∧ progress.pendingSegment = true ∧
        progress'.pendingSegment = false ∧ progress'.segments = progress.segments + 1) ∨
      (kind line = some .extinf ∧ progress.pendingSegment = false ∧
        progress'.pendingSegment = true ∧ progress'.segments = progress.segments) ∨
      (kind line = none ∧ progress'.pendingSegment = progress.pendingSegment ∧
        progress'.segments = progress.segments) := by
  cases h with
  | segment h hpending =>
    refine .inl ⟨?_, hpending, rfl, rfl⟩
    rw [kind, h]
    rfl
  | extinf hpending => exact .inr (.inl ⟨rfl, hpending, rfl, rfl⟩)
  | map => exact .inr (.inr ⟨rfl, rfl, rfl⟩)
  | key => exact .inr (.inr ⟨rfl, rfl, rfl⟩)
  | other h hextinf =>
    refine .inr (.inr ⟨?_, rfl, rfl⟩)
    rw [kind, h, hextinf]
    rfl

/-! ### All lines -/

theorem mediaLoop_cons {items : List Line} (h : mediaLoop progress (line :: lines) = .ok items) :
    ∃ item progress' rest, Accepted progress line item progress' ∧
      mediaLoop progress' lines = .ok rest ∧ items = item :: rest := by
  rw [mediaLoop] at h
  obtain ⟨⟨item, progress'⟩, hline, h⟩ := bind_eq_ok.mp h
  dsimp only at h
  split_ifs at h
  obtain ⟨rest, hrest, h⟩ := bind_eq_ok.mp h
  exact ⟨item, progress', rest, mediaLine_eq_ok hline, hrest, (Except.ok.inj h).symm⟩

theorem mediaLoop_accepted (h : mediaLoop progress lines = .ok items) :
    List.Forall₂ (fun line item => ∃ progress progress', Accepted progress line item progress')
      lines items := by
  induction lines generalizing progress items with
  | nil =>
    rw [mediaLoop] at h
    split_ifs at h
    cases h
    exact .nil
  | cons line lines ih =>
    obtain ⟨item, progress', rest, hline, hrest, rfl⟩ := mediaLoop_cons h
    exact .cons ⟨progress, progress', hline⟩ (ih hrest)

/-- Durations and segments take turns, beginning with the segment that is waited for. -/
theorem mediaLoop_turns (h : mediaLoop progress lines = .ok items) :
    ∃ n, lines.filterMap kind = (if progress.pendingSegment then [Kind.segment] else []) ++
        (List.replicate n [Kind.extinf, .segment]).flatten ∧
      0 < progress.segments + (if progress.pendingSegment then 1 else 0) + n := by
  induction lines generalizing progress items with
  | nil =>
    rw [mediaLoop] at h
    split_ifs at h with hend
    rw [Bool.or_eq_true, not_or, decide_eq_true_eq] at hend
    refine ⟨0, ?_, ?_⟩
    · rw [if_neg hend.1]
      rfl
    · rw [if_neg hend.1]
      omega
  | cons line lines ih =>
    obtain ⟨item, progress', rest, hline, hrest, -⟩ := mediaLoop_cons h
    obtain ⟨n, hkinds, hpos⟩ := ih hrest
    rcases hline.kind_eq with ⟨hkind, hpending, hpending', hsegments⟩ |
      ⟨hkind, hpending, hpending', hsegments⟩ | ⟨hkind, hpending, hsegments⟩
    · rw [hpending'] at hkinds hpos
      refine ⟨n, ?_, ?_⟩
      · rw [filterMap_cons_some hkind, hkinds, hpending]
        rfl
      · rw [hpending, if_pos rfl]
        rw [if_neg Bool.false_ne_true] at hpos
        omega
    · rw [hpending'] at hkinds hpos
      refine ⟨n + 1, ?_, ?_⟩
      · rw [filterMap_cons_some hkind, hkinds, hpending, replicate_succ]
        rfl
      · omega
    · rw [hpending, hsegments] at hpos
      rw [hpending] at hkinds
      exact ⟨n, by rw [filterMap_cons_none hkind, hkinds], hpos⟩

theorem forall₂_imp_mem {α β : Type} {R S : α → β → Prop} {as : List α} {bs : List β}
    (h : List.Forall₂ R as bs) (himp : ∀ a ∈ as, ∀ b, R a b → S a b) : List.Forall₂ S as bs := by
  induction h with
  | nil => exact .nil
  | cons hab _ ih =>
    exact .cons (himp _ mem_cons_self _ hab)
      (ih fun a ha => himp a (mem_cons_of_mem _ ha))

theorem joined_iff : items.map Line.text = lines ↔
    List.Forall₂ (fun line item => line = item.text) lines items := by
  rw [← forall₂_map_right_iff (R := Eq), forall₂_eq_eq_eq]
  exact eq_comm

/-! ### Playlists -/

theorem map_text_eq_iff {uri found after : Text} :
    mapTag ++ (front ++ (uriStart ++ (found ++ '"' :: after))) =
        (Line.resource (mapTag ++ (front ++ uriStart)) uri ('"' :: after)).text ↔ found = uri := by
  constructor
  · intro h
    simp only [Line.text, append_assoc] at h
    exact append_cancel_right (append_cancel_left (append_cancel_left
      (append_cancel_left h)))
  · rintro rfl
    simp only [Line.text, append_assoc]

theorem Accepted.readable (h : Accepted progress (mapTag ++ attributes) item progress')
    (hsplit : splitOnce attributes uriStart = some (front, rest))
    (htext : mapTag ++ attributes = item.text)
    (hback : ∀ before uri after, item = .resource before uri after → ReadsBack before uri after) :
    Readable front rest := by
  generalize hline : mapTag ++ attributes = line at h htext
  cases h with
  | segment h => rw [← hline] at h; cases h
  | extinf => cases hline
  | key => cases hline
  | other _ _ h => rw [← hline] at h; cases h
  | @map attributes' front' rest' uri found after huri hsplit' hrest hlength =>
    obtain rfl := append_cancel_left hline
    cases hsplit.symm.trans hsplit'
    have hattributes := splitOnce_eq_some hsplit
    rw [hattributes] at huri
    refine (readable_iff huri hrest hlength).mp ⟨?_, ?_⟩
    · rw [hattributes, hrest] at htext
      exact map_text_eq_iff.mp htext
    · rcases hback _ _ _ rfl with ⟨hnil, -⟩ | ⟨front', hfront, hnames⟩
      · cases hnil
      · obtain rfl := append_cancel_left hfront
        intro name hquote hcomma
        have hread := hnames name hquote hcomma
        rw [append_assoc] at hread
        exact hread

/-- A readable map is joined and read back. -/
theorem Accepted.text_eq (h : Accepted progress line item progress')
    (hmaps : ∀ attributes front rest, line = mapTag ++ attributes →
      splitOnce attributes uriStart = some (front, rest) → Readable front rest) :
    line = item.text ∧
      ∀ before uri after, item = .resource before uri after → ReadsBack before uri after := by
  cases h with
  | segment h =>
    refine ⟨(append_nil line).symm, ?_⟩
    rintro before uri after heq
    cases heq
    exact .inl ⟨rfl, rfl, h⟩
  | extinf => exact ⟨rfl, nofun⟩
  | key => exact ⟨rfl, nofun⟩
  | other => exact ⟨rfl, nofun⟩
  | @map attributes front rest uri found after huri hsplit hrest hlength =>
    have hattributes := splitOnce_eq_some hsplit
    rw [hattributes] at huri
    obtain ⟨rfl, hnames⟩ := (readable_iff huri hrest hlength).mpr (hmaps _ _ _ rfl hsplit)
    refine ⟨?_, ?_⟩
    · rw [hattributes, hrest]
      exact map_text_eq_iff.mpr rfl
    · rintro before uri' after' heq
      cases heq
      refine .inr ⟨front ++ uriStart, rfl, fun name hquote hcomma => ?_⟩
      rw [append_assoc]
      exact hnames name hquote hcomma

/-- What `media` returns for a playlist is as it is wanted, exactly if the playlist is consistent. -/
theorem media_rewrites_iff {body : Text} (hbody : Hls.lines body = .ok lines)
    (h : media lines = .ok items) : Rewrites lines items ↔ Consistent lines := by
  unfold media at h
  split_ifs at h with hended
  have haccepted := mediaLoop_accepted h
  constructor
  · intro hwanted
    have hpairs : ∀ item ∈ items, ∃ progress progress', Accepted progress item.text item progress' := by
      have hmapped := haccepted
      rw [← hwanted.joined, forall₂_map_left_iff] at hmapped
      exact forall₂_same.mp hmapped
    constructor
    · intro line hline hextinf
      rw [← hwanted.joined] at hline
      obtain ⟨item, hitem, rfl⟩ := mem_map.mp hline
      obtain ⟨progress, progress', haccept⟩ := hpairs item hitem
      refine (hwanted.tags _ ?_).2
      rw [← haccept.extinf_of_startsWith hextinf]
      exact hitem
    · intro attributes front rest hline hsplit
      rw [← hwanted.joined] at hline
      obtain ⟨item, hitem, htext⟩ := mem_map.mp hline
      obtain ⟨progress, progress', haccept⟩ := hpairs item hitem
      rw [htext] at haccept
      refine haccept.readable hsplit htext.symm fun before uri after heq => ?_
      exact hwanted.resources before uri after (heq ▸ hitem)
  · intro hconsistent
    have hfine : ∀ line ∈ lines, ∀ item, (∃ progress progress',
        Accepted progress line item progress') → line = item.text ∧
        ∀ before uri after, item = .resource before uri after → ReadsBack before uri after := by
      rintro line hline item ⟨progress, progress', haccept⟩
      exact haccept.text_eq fun attributes front rest heq hsplit =>
        hconsistent.maps attributes front rest (heq ▸ hline) hsplit
    have hjoined : items.map Line.text = lines :=
      joined_iff.mpr (forall₂_imp_mem haccepted fun line hline item haccept =>
        (hfine line hline item haccept).1)
    obtain ⟨n, hkinds, hpos⟩ := mediaLoop_turns h
    refine ⟨hjoined, ⟨n, ?_, hkinds⟩, ?_, ?_, ?_, ?_⟩
    · simpa using hpos
    · simpa using hended
    · intro line hline hkey
      rw [← hjoined] at hline
      obtain ⟨item, hitem, rfl⟩ := mem_map.mp hline
      obtain ⟨line, hline, progress, progress', haccept⟩ := exists_left_of_forall₂ haccepted hitem
      have htext := (hfine line hline item ⟨progress, progress', haccept⟩).1
      exact (htext ▸ haccept).clear hkey
    · intro line hitem
      obtain ⟨line', hline, progress, progress', haccept⟩ := exists_left_of_forall₂ haccepted hitem
      obtain rfl : line' = line := (hfine line' hline _ ⟨progress, progress', haccept⟩).1
      exact haccept.listed (hconsistent.durations line' hline)
    · intro before uri after hitem
      obtain ⟨line, hline, haccept⟩ := exists_left_of_forall₂ haccepted hitem
      exact (hfine line hline _ haccept).2 before uri after rfl

/-! ### Local playlists -/

/-- A playlist of one segment with a map. -/
def sampleBody : Text :=
  "#EXTM3U\n#EXT-X-MAP:URI=\"init.mp4\"\n#EXTINF:4,\nsegment.m4s\n#EXT-X-ENDLIST\n".toList

def sampleLines : List Text :=
  ["#EXTM3U", "#EXT-X-MAP:URI=\"init.mp4\"", "#EXTINF:4,", "segment.m4s", "#EXT-X-ENDLIST"].map
    String.toList

def sampleItems : List Line :=
  [.tag "#EXTM3U".toList, .resource "#EXT-X-MAP:URI=\"".toList "init.mp4".toList "\"".toList,
    .tag "#EXTINF:4,".toList, .resource [] "segment.m4s".toList [], .tag "#EXT-X-ENDLIST".toList]

theorem media_rewrites_iff_sample : Hls.lines sampleBody = .ok sampleLines ∧
    media sampleLines = .ok sampleItems ∧
      (Rewrites sampleLines sampleItems ↔ Consistent sampleLines) :=
  ⟨by decide +kernel, by decide +kernel,
    media_rewrites_iff (show Hls.lines sampleBody = .ok sampleLines by decide +kernel)
      (by decide +kernel)⟩

/-- A map with two addresses, of which the first one is read and the second one is found. -/
def twoAddresses : Text :=
  ("#EXTM3U\n#EXT-X-MAP:URI=http://a/remote,URI=\"http://b/second\"\n#EXTINF:4,\nsegment.m4s\n" ++
    "#EXT-X-ENDLIST\n").toList

def twoAddressesLines : List Text :=
  ["#EXTM3U", "#EXT-X-MAP:URI=http://a/remote,URI=\"http://b/second\"", "#EXTINF:4,", "segment.m4s",
    "#EXT-X-ENDLIST"].map String.toList

def twoAddressesItems : List Line :=
  [.tag "#EXTM3U".toList,
    .resource "#EXT-X-MAP:URI=http://a/remote,URI=\"".toList "http://a/remote".toList "\"".toList,
    .tag "#EXTINF:4,".toList, .resource [] "segment.m4s".toList [], .tag "#EXT-X-ENDLIST".toList]

/-- The lines put together are not the playlist, and the first address is read from the rewritten
line. -/
theorem twoAddresses_not_rewritten : Hls.lines twoAddresses = .ok twoAddressesLines ∧
    media twoAddressesLines = .ok twoAddressesItems ∧
    attributeOf "URI=http://a/remote,URI=\"resource-0.mp4\"".toList "URI" =
      some "http://a/remote".toList ∧
    ¬ Rewrites twoAddressesLines twoAddressesItems := by
  have hjoined : twoAddressesItems.map Line.text ≠ twoAddressesLines := by decide +kernel
  exact ⟨by decide +kernel, by decide +kernel, by decide +kernel, fun h => hjoined h.joined⟩

end Qbutt.Hls
