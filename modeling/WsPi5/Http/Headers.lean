/-
# `WsPi5.Http.Headers` — the response headers in memory

The headers are templates, lines of text with a Date field that `http_update_date` writes over:

    400 405 411 413    Connection: close
    404                no Connection line
    a route            as the image has it; the built-in ones have no Connection line

`HttpLayout` says where they are: a date goes into the Date field of its template, the chunk
buffers are elsewhere.  So every header keeps its lines, whatever the date (`headersIn_step`),
and whether it holds the line `Connection: close` can be told from its template
(`promisesClose_hdrText`).
-/
import WsPi5.Http.Crossing
import WsPi5.Http.WayStates

namespace WsPi5

open Lib

/-! ## Templates -/

/-- A line of a template. -/
inductive HdrLine where
  | text (line : String)
  | date
  deriving DecidableEq, Repr

def crlf : List Byte := [0x0D, 0x0A]

def datePrefix : List Byte := ascii "Date: "

def httpDateLen : Nat := 29

def HdrLine.bytes (stamp : List Byte) : HdrLine → List Byte
  | .text line => ascii line
  | .date => datePrefix ++ stamp

/-- Lines, each with CRLF. -/
def hdrLines (stamp : List Byte) (t : List HdrLine) : List Byte :=
  t.flatMap fun l => l.bytes stamp ++ crlf

def hdrText (stamp : List Byte) (t : List HdrLine) : List Byte := hdrLines stamp t ++ crlf

/-- Status line, Server, Date, and the fields behind them. -/
def template (status : String) (fields : List String) : List HdrLine :=
  .text status :: .text "Server: ws_pi5" :: .date :: fields.map .text

def htmlType : String := "Content-Type: text/html; charset=utf-8"
def closeField : String := "Connection: close"

def http200Hdr : List HdrLine :=
  template "HTTP/1.1 200 OK" [htmlType, "Content-Length: 158"]
def httpTestCssHdr : List HdrLine :=
  template "HTTP/1.1 200 OK" ["Content-Type: text/css", "Content-Length: 18"]
def httpAboutHdr : List HdrLine :=
  template "HTTP/1.1 200 OK" [htmlType, "Content-Length: 372"]
def httpStatusHdr : List HdrLine :=
  template "HTTP/1.1 200 OK" [htmlType, "Transfer-Encoding: chunked"]
def http404Hdr : List HdrLine :=
  template "HTTP/1.1 404 Not Found" [htmlType, "Content-Length: 97"]
def http400Hdr : List HdrLine :=
  template "HTTP/1.1 400 Bad Request" [htmlType, "Content-Length: 99", closeField]

/-- The three 405 headers differ in the Allow line. -/
def http405Hdr (allow : String) : List HdrLine :=
  template "HTTP/1.1 405 Method Not Allowed" [allow, htmlType, "Content-Length: 106", closeField]

def http405HdrGhp : List HdrLine := http405Hdr "Allow: GET, HEAD, POST"
def http405HdrGh : List HdrLine := http405Hdr "Allow: GET, HEAD"
def http405HdrP : List HdrLine := http405Hdr "Allow: POST"
def http411Hdr : List HdrLine :=
  template "HTTP/1.1 411 Length Required" [htmlType, "Content-Length: 103", closeField]
def http413Hdr : List HdrLine :=
  template "HTTP/1.1 413 Payload Too Large" [htmlType, "Content-Length: 105", closeField]

/-! ## The Connection line -/

/-- The header holds the line `Connection: close`. -/
def promisesClose (hdr : List Byte) : Prop := ascii closeField ++ [0x0D] ∈ hdr.splitOn 0x0A

def saysClose (t : List HdrLine) : Bool :=
  t.any fun
    | .text line => ascii line = ascii closeField
    | .date => false

def Plain (t : List HdrLine) : Prop := ∀ l ∈ t, 0x0A ∉ l.bytes []

/-- A formatted date. -/
structure Stamp (stamp : List Byte) : Prop where
  length : stamp.length = httpDateLen
  line : 0x0A ∉ stamp

instance decPlain (t : List HdrLine) : Decidable (Plain t) :=
  inferInstanceAs (Decidable (∀ l ∈ t, 0x0A ∉ l.bytes []))

instance decStamp (stamp : List Byte) : Decidable (Stamp stamp) :=
  decidable_of_iff (stamp.length = httpDateLen ∧ 0x0A ∉ stamp)
    ⟨fun h => ⟨h.1, h.2⟩, fun h => ⟨h.length, h.line⟩⟩

section
variable {stamp : List Byte} {t : List HdrLine}

theorem HdrLine.bytes_line (hs : 0x0A ∉ stamp) (ht : Plain t) {l : HdrLine} (hl : l ∈ t) :
    0x0A ∉ l.bytes stamp ++ [0x0D] := by
  cases l with
  | text line =>
      have hline := ht (.text line) hl
      simpa [HdrLine.bytes] using hline
  | date =>
      have hprefix : (0x0A : Byte) ∉ datePrefix := by decide
      simp [HdrLine.bytes, hprefix, hs]

/-- **The lines of a header** are those of its template. -/
theorem hdrText_splitOn (hs : 0x0A ∉ stamp) (ht : Plain t) :
    (hdrText stamp t).splitOn 0x0A = t.map (fun l => l.bytes stamp ++ [0x0D]) ++ [[0x0D], []] := by
  induction t with
  | nil =>
      have hcr : (0x0A : Byte) ∉ ([0x0D] : List Byte) := by decide
      have hend : ([0x0D] ++ 0x0A :: [] : List Byte).splitOn 0x0A = [0x0D] :: [].splitOn 0x0A :=
        List.splitOn_append_cons_self_of_not_mem hcr []
      rw [List.splitOn_nil] at hend
      exact hend
  | cons l t ih =>
      have hline := HdrLine.bytes_line hs ht (l := l) List.mem_cons_self
      have hrest := ih fun l' hmem => ht l' (List.mem_cons_of_mem l hmem)
      have htext : hdrText stamp (l :: t)
          = (l.bytes stamp ++ [0x0D]) ++ 0x0A :: hdrText stamp t := by
        simp [hdrText, hdrLines, crlf]
      rw [htext, List.splitOn_append_cons_self_of_not_mem hline, hrest]
      rfl

/-- **The promise is in the template.**  The date makes no difference. -/
theorem promisesClose_hdrText (hs : 0x0A ∉ stamp) (ht : Plain t) :
    promisesClose (hdrText stamp t) ↔ saysClose t = true := by
  have hlast : ascii closeField ++ [0x0D] ∉ ([[0x0D], []] : List (List Byte)) := by decide
  have hdate : HdrLine.date.bytes stamp ≠ ascii closeField := by
    intro heq
    have hfirst := congrArg List.head? heq
    simp [HdrLine.bytes, datePrefix, closeField, ascii] at hfirst
  unfold promisesClose
  rw [hdrText_splitOn hs ht, List.mem_append, or_iff_left hlast]
  simp only [List.mem_map, List.append_cancel_right_eq, saysClose, List.any_eq_true]
  refine exists_congr fun l => and_congr_right fun _ => ?_
  cases l with
  | text line => simp [HdrLine.bytes]
  | date => simp [hdate]

end

-- the built-in routes promise nothing
example : ∀ t ∈ [http200Hdr, httpTestCssHdr, httpAboutHdr, httpStatusHdr], saysClose t = false := by
  decide

/-! ## Where they are -/

/-- Every page with the template of its header. -/
def HttpEnv.headers (env : HttpEnv) (routeHdr : Route → List HdrLine) :
    List (Blob × List HdrLine) :=
  [(env.notFound, http404Hdr), (env.badRequest, http400Hdr), (env.methodGhp, http405HdrGhp),
    (env.methodGh, http405HdrGh), (env.methodP, http405HdrP),
    (env.lengthRequired, http411Hdr), (env.tooLarge, http413Hdr)]
  ++ env.routes.map fun rt => (rt.blob, routeHdr rt)

/-- The image: a date is written into the Date field of a header or next to it, and the chunk
buffers are apart from the headers. -/
structure HttpLayout (env : HttpEnv) (routeHdr : Route → List HdrLine) : Prop where
  plain : ∀ p ∈ env.headers routeHdr, Plain p.2
  dates : ∀ a ∈ env.dateFields, ∀ p ∈ env.headers routeHdr,
    (p.1.hdr + p.1.hdrLen ≤ a ∨ a + httpDateLen ≤ p.1.hdr) ∨
    ∃ before after, p.2 = before ++ .date :: after ∧ .date ∉ before ∧ .date ∉ after ∧
      a = p.1.hdr + (hdrLines [] before ++ datePrefix).length
  chunks : ∀ p ∈ env.headers routeHdr, p.1.hdr + p.1.hdrLen ≤ env.dynChunkBufs ∨
    env.dynChunkBufs + tcpMaxConns * httpDynChunkSize ≤ p.1.hdr

/-- Every header in memory is its template's, with some date. -/
def HeadersIn (env : HttpEnv) (routeHdr : Route → List HdrLine) (mem : Nat → Byte) : Prop :=
  ∀ p ∈ env.headers routeHdr, ∃ stamp, Stamp stamp ∧
    slice mem p.1.hdr p.1.hdrLen = hdrText stamp p.2

/-! ## Their lines stay -/

theorem hdrLines_dateless {before : List HdrLine} (h : .date ∉ before) (stamp stamp' : List Byte) :
    hdrLines stamp before = hdrLines stamp' before := by
  induction before with
  | nil => rfl
  | cons l before ih =>
      have hl : l.bytes stamp = l.bytes stamp' := by
        cases l with
        | text line => rfl
        | date => exact absurd List.mem_cons_self h
      have hrest := ih fun hmem => h (List.mem_cons_of_mem l hmem)
      simp only [hdrLines, List.flatMap_cons, hl] at hrest ⊢
      rw [hrest]

theorem hdrText_dated (before after : List HdrLine) (stamp : List Byte) :
    hdrText stamp (before ++ .date :: after)
      = (hdrLines stamp before ++ datePrefix) ++ stamp ++ (crlf ++ hdrText stamp after) := by
  simp [hdrText, hdrLines, HdrLine.bytes]

section
variable {env : HttpEnv} {routeHdr : Route → List HdrLine} {mem : Nat → Byte}

theorem slice_newDate {b : Blob} {before after : List HdrLine} {old stamp : List Byte}
    (hold : Stamp old) (hnew : Stamp stamp) (hb : .date ∉ before) (ha : .date ∉ after)
    (hslice : slice mem b.hdr b.hdrLen = hdrText old (before ++ .date :: after)) :
    slice (memWrite mem (b.hdr + (hdrLines [] before ++ datePrefix).length) stamp) b.hdr b.hdrLen
      = hdrText stamp (before ++ .date :: after) := by
  obtain ⟨front, hfront⟩ : ∃ front, front = hdrLines [] before ++ datePrefix := ⟨_, rfl⟩
  obtain ⟨back, hback⟩ : ∃ back, back = crlf ++ hdrText [] after := ⟨_, rfl⟩
  have hsame : ∀ d, hdrText d (before ++ .date :: after) = front ++ d ++ back := by
    intro d
    rw [hdrText_dated, hdrLines_dateless hb d [], hfront, hback, hdrText, hdrText,
      hdrLines_dateless ha d []]
  rw [hsame] at hslice ⊢
  rw [← hfront]
  have hlen : b.hdrLen = front.length + stamp.length + back.length := by
    have := congrArg List.length hslice
    rw [slice_length, List.length_append, List.length_append, hold.length] at this
    rw [this, hnew.length]
  rw [hlen, slice_memWrite_inside]
  rw [hlen, slice_add, slice_add, List.append_assoc, List.append_assoc] at hslice
  obtain ⟨hone, hrest⟩ := List.append_inj hslice (by simp)
  obtain ⟨_, hthree⟩ := List.append_inj hrest (by simp [hold.length, hnew.length])
  rw [hone, Nat.add_assoc, hthree]

theorem HeadersIn.dated (h : HeadersIn env routeHdr mem) (hl : HttpLayout env routeHdr) {a : Nat}
    (ha : a ∈ env.dateFields) {stamp : List Byte} (hs : Stamp stamp) :
    HeadersIn env routeHdr (memWrite mem a stamp) := by
  intro p hp
  obtain ⟨old, hold, hslice⟩ := h p hp
  rcases hl.dates a ha p hp with hout | ⟨before, after, htmpl, hb, haf, rfl⟩
  · refine ⟨old, hold, ?_⟩
    rw [slice_memWrite_outside (by rw [hs.length]; exact hout)]
    exact hslice
  · refine ⟨stamp, hs, ?_⟩
    rw [htmpl] at hslice ⊢
    exact slice_newDate hold hs hb haf hslice

theorem httpFormatDate_stamp (t : UnixTime) : ∃ d, httpFormatDate t = some d ∧ Stamp d := by
  have hlt := t.isLt
  obtain ⟨i, -, htext, -, -⟩ := @httpFormatDate_instant t.val (by unfold lastSecond; omega)
  exact ⟨i.text, htext, i.text_length, i.text_line⟩

theorem httpUpdateDate_some {t : UnixTime} {d : List Byte} (h : httpFormatDate t = some d)
    (env : HttpEnv) (mem : Nat → Byte) : httpUpdateDate env mem (some t) = putDates env mem d := by
  rw [httpUpdateDate, Option.bind_some, h]
  rfl

theorem HeadersIn.updateDate (h : HeadersIn env routeHdr mem) (hl : HttpLayout env routeHdr)
    (time : Option UnixTime) : HeadersIn env routeHdr (httpUpdateDate env mem time) := by
  cases time with
  | none => exact h
  | some t =>
      obtain ⟨d, hd, hs⟩ := httpFormatDate_stamp t
      rw [httpUpdateDate_some hd]
      have hall : ∀ fields : List Nat, (∀ a ∈ fields, a ∈ env.dateFields) → ∀ m,
          HeadersIn env routeHdr m →
          HeadersIn env routeHdr (fields.foldl (fun m a => memWrite m a d) m) := by
        intro fields
        induction fields with
        | nil => exact fun _ m hm => hm
        | cons a fields ih =>
            intro hmem m hm
            exact ih (fun a' ha' => hmem a' (List.mem_cons_of_mem a ha')) _
              (hm.dated hl (hmem a List.mem_cons_self) hs)
      exact hall env.dateFields (fun _ ha => ha) mem h

theorem setupPage_header (hl : HttpLayout env routeHdr) (s : Server) (i : Slot) (out : HandlerOut)
    (f : Flags) (page : Page) {p : Blob × List HdrLine} (hp : p ∈ env.headers routeHdr) :
    slice (setupPage env i s out f page).1 p.1.hdr p.1.hdrLen = slice s.mem p.1.hdr p.1.hdrLen := by
  cases page with
  | static b => rfl
  | dynamic b =>
      have hlen := chunkBody_length out
      have hi := i.isLt
      have hbuf : env.chunkBuf i + httpDynChunkSize
          ≤ env.dynChunkBufs + tcpMaxConns * httpDynChunkSize := by
        simp only [HttpEnv.chunkBuf, httpDynChunkSize]
        omega
      have hstart : env.dynChunkBufs ≤ env.chunkBuf i := Nat.le_add_right _ _
      show slice (memWrite s.mem (env.chunkBuf i) (chunkBody out.bytes)) _ _ = _
      apply slice_memWrite_outside
      rcases hl.chunks p hp with hlow | hhigh
      · exact .inl (by omega)
      · exact .inr (by omega)

theorem OHandler.call_mem (env : HttpEnv) (now : Tick) (i : Slot) (s : Server) (hd : OHandler) :
    (hd.call env now i s).mem = s.mem := by
  cases hd with
  | send =>
      simp only [OHandler.call, hSend]
      split
      · split
        · rfl
        split
        · rfl
        split <;> rfl
      · rfl
  | _ => rfl

theorem headers_unwritten {s s' : Server} {inp : Input} (hl : HttpLayout env routeHdr)
    (hinp : ∀ d, inp ≠ .date (some d)) (hst : serverStep env s inp = some s')
    {p : Blob × List HdrLine} (hp : p ∈ env.headers routeHdr) :
    slice s'.mem p.1.hdr p.1.hdrLen = slice s.mem p.1.hdr p.1.hdrLen := by
  cases serverStep_act hst with
  | net _ _ _ _ _ _ => rfl
  | idle _ => rfl
  | @date k stamp _ =>
      cases stamp with
      | none => rfl
      | some d => exact absurd rfl (hinp d)
  | @visit i start now out _ =>
      have hnm := (noteVisit_fields s i start now).2.2.2
      show slice (visitSlot env i s start now out).mem _ _ = _
      unfold visitSlot
      dsimp only
      rw [← hnm]
      split
      · rfl
      · rfl
      · exact setupPage_header hl _ i out _ _ hp
  | @event i _ =>
      obtain heq | ⟨_, e, _, heq⟩ | ⟨_, _, heq⟩ := pollEvent_cases i s <;> rw [heq] <;> rfl
  | fsa _ hstep =>
      obtain ⟨i, e, q, _, ⟨_, rfl⟩ | ⟨o, hd, _, rfl⟩⟩ := httpFsaStep_cases hstep
      · rfl
      · rw [OHandler.call_mem]
  | drained _ _ => rfl

/-- **Every step keeps the headers.** -/
theorem headersIn_step {s s' : Server} {inp : Input} (h : HeadersIn env routeHdr s.mem)
    (hl : HttpLayout env routeHdr) (hst : serverStep env s inp = some s') :
    HeadersIn env routeHdr s'.mem := by
  by_cases hinp : ∃ d, inp = .date (some d)
  · obtain ⟨d, rfl⟩ := hinp
    cases serverStep_act hst with
    | net _ _ _ _ _ _ => exact h
    | date _ =>
        exact h.updateDate hl (some d)
  · intro p hp
    obtain ⟨stamp, hs, hslice⟩ := h p hp
    refine ⟨stamp, hs, ?_⟩
    rw [headers_unwritten hl (fun d hd => hinp ⟨d, hd⟩) hst hp]
    exact hslice

end

end WsPi5
