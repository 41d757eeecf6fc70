/-
# `WsPi5.Http.Guestbook` — the guestbook of `lib/http_handlers.S`

    POST    128 zeros into the slot buffer, up to 128 bytes of the body over them, `store_append`
    GET     "<ul>", for each record "<li>", its bytes up to a zero, "</li>", and "</ul>"

The room that is left in the output buffer is counted down in w20, at four places: the literals and
the entities stop in the middle when it is zero, a plain byte leaves for `.Lhgh_close`, and there
nothing is written any more.  So what is written is at each moment the beginning of one and the same
page, however small the buffer (`Emits`).

**Proved here** (`guestbook_law`): after any sequence of requests the page is a function of the
bodies posted, and a GET writes as much of it as there is room.
-/
import WsPi5.Lib.Html
import WsPi5.Lib.Region
import WsPi5.Store

namespace WsPi5

open Lib

/-! ## The handler -/

def guestbookRecBytes : Nat := 128
def guestbookCap : Nat := 16

def httpGbUlOpen : List Byte := ascii "<ul>\n"
def httpGbUlClose : List Byte := ascii "</ul>\n"
def httpGbLiOpen : List Byte := ascii "<li>"
def httpGbLiClose : List Byte := ascii "</li>\n"
def httpGbEscLt : List Byte := ascii "&lt;"
def httpGbEscGt : List Byte := ascii "&gt;"
def httpGbEscAmp : List Byte := ascii "&amp;"

/-- `guestbook_store` and `guestbook_slot_buf`. -/
structure Guestbook where
  store : Store
  slotBuf : Nat → Byte

/-- What has been written up to the cursor x22, and w20. -/
structure Emit where
  out : List Byte
  w20 : Nat

/-- The loop of `gb_emit_literal` and of `gb_emit_escape`. -/
def gbEmit : Emit → List Byte → Emit
  | e, [] => e
  | e, b :: bs => if e.w20 = 0 then e else gbEmit ⟨e.out ++ [b], e.w20 - 1⟩ bs

abbrev gbEmitLiteral := gbEmit
abbrev gbEmitEscape := gbEmit

/-- `.Lhgh_entry_bytes`, with `n` bytes to go: the output, and whether it left for `.Lhgh_close`. -/
def entryBytes (slot : Nat → Byte) : (n w1 : Nat) → Emit → Emit × Bool
  | 0, _, e => (e, false)
  | n + 1, w1, e =>
      let w2 := slot w1
      if w2 = 0 then (e, false)
      else if w2 = ltByte then entryBytes slot n (w1 + 1) (gbEmitEscape e httpGbEscLt)
      else if w2 = gtByte then entryBytes slot n (w1 + 1) (gbEmitEscape e httpGbEscGt)
      else if w2 = ampByte then entryBytes slot n (w1 + 1) (gbEmitEscape e httpGbEscAmp)
      else if e.w20 = 0 then (e, true)
      else entryBytes slot n (w1 + 1) ⟨e.out ++ [w2], e.w20 - 1⟩

/-- `.Lhgh_entry_loop`, with `n` entries to go, up to `.Lhgh_close`: the output and the slot buffer. -/
def entryLoop (store : Store) : (n w24 : Nat) → Emit → (Nat → Byte) → Emit × (Nat → Byte)
  | 0, _, e, slot => (e, slot)
  | n + 1, w24, e, slot =>
      let e := gbEmitLiteral e httpGbLiOpen
      let slot := (storeRead store (BitVec.ofNat 32 w24) slot).2
      let r := entryBytes slot guestbookRecBytes 0 e
      if r.2 then (r.1, slot)
      else entryLoop store n (w24 + 1) (gbEmitLiteral r.1 httpGbLiClose) slot

/-- `.Lhgh_get`: what is written, and the slot buffer. -/
def guestbookGet (g : Guestbook) (maxLen : Nat) : List Byte × Guestbook :=
  let e := gbEmitLiteral ⟨[], maxLen⟩ httpGbUlOpen
  let r := entryLoop g.store (storeCount g.store).toNat 0 e g.slotBuf
  ((gbEmitLiteral r.1 httpGbUlClose).out, { g with slotBuf := r.2 })

/-- The POST path, for a body of `contentLen` bytes from x0 on. -/
def guestbookPost (g : Guestbook) (mem : Nat → Option Byte) (x0 contentLen : Nat) :
    Option (List Byte × Guestbook) :=
  let zeroed := memWrite g.slotBuf 0 (List.replicate guestbookRecBytes 0)
  (loadCells mem (min contentLen guestbookRecBytes) x0).map fun body =>
    let slot := memWrite zeroed 0 body
    (ascii "OK", ⟨storeAppend g.store slot, slot⟩)

/-- A body in the receive buffer of its connection. -/
structure PostedBody where
  mem : Nat → Option Byte
  x0 : Nat
  bytes : List Byte
  stands : Stands mem x0 bytes

/-- HFLAG_POST decides. -/
inductive GuestbookRequest where
  | post (body : PostedBody)
  | get (maxLen : Nat)

def httpGuestbookHandler (g : Guestbook) : GuestbookRequest → Option (List Byte × Guestbook)
  | .post body => guestbookPost g body.mem body.x0 body.bytes.length
  | .get maxLen => some (guestbookGet g maxLen)

def guestbookRun (g : Guestbook) : List GuestbookRequest → Option Guestbook
  | [] => some g
  | r :: rs => (httpGuestbookHandler g r).bind fun p => guestbookRun p.2 rs

/-! ## The page -/

/-- The bodies that were posted, first to last. -/
def postedBodies : List GuestbookRequest → List (List Byte)
  | [] => []
  | .post body :: rs => body.bytes :: postedBodies rs
  | .get _ :: rs => postedBodies rs

/-- What is kept of a body: 128 bytes, and of these those before the first zero. -/
def entryText (body : List Byte) : List Byte :=
  (body.take guestbookRecBytes).takeWhile fun b => b ≠ 0

def entryItem (body : List Byte) : List Byte :=
  ascii "<li>" ++ htmlEscape (entryText body) ++ ascii "</li>\n"

/-- The list of the last sixteen bodies, oldest first. -/
def guestbookPage (bodies : List (List Byte)) : List Byte :=
  ascii "<ul>\n" ++ (lastOnes guestbookCap bodies).flatMap entryItem ++ ascii "</ul>\n"

/-! ## Writing with limited room -/

/-- What stands in the buffer is the text, as far as there was room. -/
structure Emits (room : Nat) (text : List Byte) (e : Emit) : Prop where
  out : e.out = text.take room
  left : e.w20 = room - text.length

section
variable {room : Nat} {text : List Byte} {e : Emit}

theorem Emits.start : Emits room [] ⟨[], room⟩ := ⟨by simp, by simp⟩

theorem Emits.byte (h : Emits room text e) (b : Byte) (hroom : e.w20 ≠ 0) :
    Emits room (text ++ [b]) ⟨e.out ++ [b], e.w20 - 1⟩ := by
  have hlt : text.length < room := by
    have hleft := h.left
    omega
  have hlen : (text ++ [b]).length = text.length + 1 := by simp
  constructor
  · rw [h.out, List.take_of_length_le (Nat.le_of_lt hlt), List.take_of_length_le (by omega)]
  · show e.w20 - 1 = _
    rw [h.left, hlen]
    omega

theorem Emits.full (h : Emits room text e) (hfull : e.w20 = 0) (more : List Byte) :
    Emits room (text ++ more) e := by
  have hle : room ≤ text.length := by
    have hleft := h.left
    omega
  constructor
  · rw [h.out, List.take_append_of_le_length hle]
  · rw [hfull, List.length_append]
    omega

theorem Emits.emit (lit : List Byte) : ∀ {text : List Byte} {e : Emit}, Emits room text e →
    Emits room (text ++ lit) (gbEmit e lit) := by
  induction lit with
  | nil =>
      intro text e h
      rw [List.append_nil]
      exact h
  | cons b lit ih =>
      intro text e h
      rw [gbEmit]
      by_cases hfull : e.w20 = 0
      · rw [if_pos hfull]
        exact h.full hfull (b :: lit)
      · rw [if_neg hfull]
        have hrest := ih (h.byte b hfull)
        rwa [List.append_assoc, List.singleton_append] at hrest

end

/-! ## An entry -/

theorem escLt_eq : httpGbEscLt = htmlByte ltByte := by decide
theorem escGt_eq : httpGbEscGt = htmlByte gtByte := by decide
theorem escAmp_eq : httpGbEscAmp = htmlByte ampByte := by decide

/-- The bytes of a slot up to the first zero, escaped; if the loop left early, there is no room for
anything else either. -/
theorem entryBytes_emits {room : Nat} (slot : Nat → Byte) : ∀ (n w1 : Nat) {text : List Byte}
    {e : Emit}, Emits room text e →
    Emits room (text ++ htmlEscape ((slice slot w1 n).takeWhile fun b => b ≠ 0))
      (entryBytes slot n w1 e).1 ∧
    ((entryBytes slot n w1 e).2 = true → (entryBytes slot n w1 e).1.w20 = 0) := by
  intro n
  induction n with
  | zero =>
      intro w1 text e h
      refine ⟨?_, fun hleft => absurd hleft Bool.false_ne_true⟩
      rw [slice_zero, List.takeWhile_nil, htmlEscape, List.flatMap_nil, List.append_nil]
      exact h
  | succ n ih =>
      intro w1 text e h
      have hslice : slice slot w1 (n + 1) = slot w1 :: slice slot (w1 + 1) n := by
        rw [Nat.add_comm n 1, slice_add]
        rfl
      rw [hslice, entryBytes]
      by_cases hzero : slot w1 = 0
      · rw [if_pos hzero, List.takeWhile_cons_of_neg (by simp [hzero])]
        refine ⟨?_, fun hleft => absurd hleft Bool.false_ne_true⟩
        rw [htmlEscape, List.flatMap_nil, List.append_nil]
        exact h
      rw [if_neg hzero, List.takeWhile_cons_of_pos (by simp [hzero]), htmlEscape,
        List.flatMap_cons, ← htmlEscape, ← List.append_assoc]
      by_cases hlt : slot w1 = ltByte
      · rw [if_pos hlt, hlt, ← escLt_eq]
        exact ih (w1 + 1) (h.emit httpGbEscLt)
      rw [if_neg hlt]
      by_cases hgt : slot w1 = gtByte
      · rw [if_pos hgt, hgt, ← escGt_eq]
        exact ih (w1 + 1) (h.emit httpGbEscGt)
      rw [if_neg hgt]
      by_cases hamp : slot w1 = ampByte
      · rw [if_pos hamp, hamp, ← escAmp_eq]
        exact ih (w1 + 1) (h.emit httpGbEscAmp)
      rw [if_neg hamp, htmlByte_plain ⟨hlt, hgt, hamp⟩]
      by_cases hfull : e.w20 = 0
      · rw [if_pos hfull, List.append_assoc]
        exact ⟨h.full hfull _, fun _ => hfull⟩
      · rw [if_neg hfull]
        exact ih (w1 + 1) (h.byte (slot w1) hfull)

/-! ## The records -/

def paddedBody (body : List Byte) : List Byte :=
  body.take guestbookRecBytes ++ List.replicate (guestbookRecBytes - body.length) 0

theorem paddedBody_length (body : List Byte) : (paddedBody body).length = guestbookRecBytes := by
  rw [paddedBody, List.length_append, List.length_take, List.length_replicate]
  omega

theorem paddedBody_text (body : List Byte) :
    ((paddedBody body).takeWhile fun b => b ≠ 0) = entryText body := by
  rw [paddedBody, entryText]
  induction body.take guestbookRecBytes with
  | nil =>
      cases guestbookRecBytes - body.length with
      | zero => rfl
      | succ n => rw [List.nil_append, List.replicate_succ, List.takeWhile_cons_of_neg (by simp)]; rfl
  | cons b bs ih =>
      by_cases hb : b = 0
      · rw [List.cons_append, List.takeWhile_cons_of_neg (by simp [hb]),
          List.takeWhile_cons_of_neg (by simp [hb])]
      · rw [List.cons_append, List.takeWhile_cons_of_pos (by simp [hb]), ih,
          List.takeWhile_cons_of_pos (by simp [hb])]

def Guestbook.Holds (g : Guestbook) (bodies : List (List Byte)) : Prop :=
  g.store.Holds 4 guestbookRecBytes (bodies.map paddedBody)

theorem guestbookPost_eq {g : Guestbook} {bodies : List (List Byte)} (h : g.Holds bodies)
    (body : PostedBody) : ∃ g', guestbookPost g body.mem body.x0 body.bytes.length
      = some (ascii "OK", g') ∧ g'.Holds (bodies ++ [body.bytes]) := by
  have hload : loadCells body.mem (min body.bytes.length guestbookRecBytes) body.x0
      = some (body.bytes.take guestbookRecBytes) := by
    have h := loadCells_take body.stands (Nat.min_le_left body.bytes.length guestbookRecBytes)
    rw [h, Nat.min_comm, ← List.take_eq_take_min]
  obtain ⟨zeroed, hz⟩ : ∃ zeroed,
    zeroed = memWrite g.slotBuf 0 (List.replicate guestbookRecBytes 0) := ⟨_, rfl⟩
  have hzeros : slice zeroed 0 guestbookRecBytes = List.replicate guestbookRecBytes 0 := by
    have h := slice_memWrite_self g.slotBuf 0 (List.replicate guestbookRecBytes (0 : Byte))
    rwa [List.length_replicate, ← hz] at h
  have hslot : slice (memWrite zeroed 0 (body.bytes.take guestbookRecBytes)) 0 guestbookRecBytes
      = paddedBody body.bytes := by
    have hlen : (body.bytes.take guestbookRecBytes).length
        = min guestbookRecBytes body.bytes.length := List.length_take
    have h := slice_memWrite_inside zeroed 0 0 (guestbookRecBytes - body.bytes.length)
      (body.bytes.take guestbookRecBytes)
    have hrest : slice zeroed (body.bytes.take guestbookRecBytes).length
        (guestbookRecBytes - body.bytes.length)
          = List.replicate (guestbookRecBytes - body.bytes.length) 0 := by
      have hend : guestbookRecBytes - (body.bytes.take guestbookRecBytes).length
          = guestbookRecBytes - body.bytes.length := by omega
      have hdrop := slice_drop zeroed 0
        (by omega : (body.bytes.take guestbookRecBytes).length ≤ guestbookRecBytes)
      rw [hzeros, List.drop_replicate, Nat.zero_add, hend] at hdrop
      exact hdrop.symm
    have hwhole : 0 + (body.bytes.take guestbookRecBytes).length
        + (guestbookRecBytes - body.bytes.length) = guestbookRecBytes := by omega
    rw [hwhole, slice_zero, List.nil_append, Nat.zero_add, Nat.zero_add, hrest] at h
    exact h
  refine ⟨_, by rw [guestbookPost, hload]; rfl, ?_⟩
  rw [Guestbook.Holds, List.map_append, List.map_singleton, ← hslot, hz]
  exact Store.Holds.append h

/-! ## The list -/

theorem entryItem_eq (body : List Byte) : entryItem body
    = httpGbLiOpen ++ htmlEscape ((paddedBody body).takeWhile fun b => b ≠ 0) ++ httpGbLiClose := by
  rw [paddedBody_text]
  rfl

theorem entryLoop_emits {store : Store} {log : List (List Byte)} {room : Nat}
    (hstore : store.Holds 4 guestbookRecBytes (log.map paddedBody)) (hshort : log.length < 2 ^ 32) :
    ∀ (n j : Nat) {text : List Byte} {e : Emit} (slot : Nat → Byte),
    j + n = (lastOnes guestbookCap log).length → Emits room text e →
    Emits room (text ++ ((lastOnes guestbookCap log).drop j).flatMap entryItem)
      (entryLoop store n j e slot).1 := by
  have hmap : lastOnes guestbookCap (log.map paddedBody)
      = (lastOnes guestbookCap log).map paddedBody := by
    rw [lastOnes, lastOnes, List.length_map, List.map_drop]
  intro n
  induction n with
  | zero =>
      intro j text e slot hj h
      rw [List.drop_of_length_le (by omega), List.flatMap_nil, List.append_nil]
      exact h
  | succ n ih =>
      intro j text e slot hj h
      have hlt : j < (lastOnes guestbookCap log).length := by omega
      have hin : j < (lastOnes (2 ^ 4) (log.map paddedBody)).length := by
        have hlen := congrArg List.length hmap
        rw [List.length_map] at hlen
        exact hlen ▸ hlt
      have hread := hstore.read (by rwa [List.length_map]) hin slot
      -- what the slot buffer holds then
      obtain ⟨body, hbody⟩ : ∃ body, body = (lastOnes guestbookCap log)[j] := ⟨_, rfl⟩
      have hrecord : (lastOnes (2 ^ 4) (log.map paddedBody))[j] = paddedBody body := by
        rw [hbody, ← List.getElem_map paddedBody]
        exact List.getElem_of_eq hmap hin
      rw [hrecord] at hread
      have hslot : slice (memWrite slot 0 (paddedBody body)) 0 guestbookRecBytes
          = paddedBody body := by
        have h := slice_memWrite_self slot 0 (paddedBody body)
        rwa [paddedBody_length] at h
      have hopen := h.emit httpGbLiOpen
      obtain ⟨hbytes, hleft⟩ :=
        entryBytes_emits (memWrite slot 0 (paddedBody body)) guestbookRecBytes 0 hopen
      rw [hslot] at hbytes
      have hsplit : (lastOnes guestbookCap log).drop j
          = body :: (lastOnes guestbookCap log).drop (j + 1) := by
        rw [hbody]
        exact List.drop_eq_getElem_cons hlt
      rw [hsplit, List.flatMap_cons, entryItem_eq, entryLoop, hread]
      dsimp only
      cases hstop : (entryBytes (memWrite slot 0 (paddedBody body)) guestbookRecBytes 0
          (gbEmitLiteral e httpGbLiOpen)).2 with
      | true =>
          rw [if_pos rfl]
          have hfull := hbytes.full (hleft hstop)
            (httpGbLiClose ++ ((lastOnes guestbookCap log).drop (j + 1)).flatMap entryItem)
          simpa only [List.append_assoc] using hfull
      | false =>
          rw [if_neg Bool.false_ne_true]
          have hnext := ih (j + 1) (memWrite slot 0 (paddedBody body)) (by omega)
            (hbytes.emit httpGbLiClose)
          simpa only [List.append_assoc] using hnext

/-- **GET**: as much of the page as there is room. -/
theorem guestbookGet_eq {g : Guestbook} {bodies : List (List Byte)} (h : g.Holds bodies)
    (hshort : bodies.length < 2 ^ 32) (maxLen : Nat) :
    (guestbookGet g maxLen).1 = (guestbookPage bodies).take maxLen ∧
    (guestbookGet g maxLen).2.Holds bodies := by
  have hcount := Store.Holds.count h (by rwa [List.length_map])
  have hsame : (lastOnes (2 ^ 4) (bodies.map paddedBody)).length
      = (lastOnes guestbookCap bodies).length := by
    rw [lastOnes_length, lastOnes_length, List.length_map]
    rfl
  have hopen := (@Emits.start maxLen).emit httpGbUlOpen
  have hlist := entryLoop_emits h hshort (storeCount g.store).toNat 0 g.slotBuf
    (by rw [hcount, hsame, Nat.zero_add]) hopen
  have hclose := hlist.emit httpGbUlClose
  exact ⟨hclose.out, h⟩

/-! ## Any sequence of requests -/

theorem guestbookRun_holds : ∀ (rs : List GuestbookRequest) {g : Guestbook}
    {before : List (List Byte)}, g.Holds before →
    (before ++ postedBodies rs).length < 2 ^ 32 →
    ∃ g', guestbookRun g rs = some g' ∧ g'.Holds (before ++ postedBodies rs) := by
  intro rs
  induction rs with
  | nil =>
      intro g before h _
      rw [postedBodies, List.append_nil]
      exact ⟨g, rfl, h⟩
  | cons r rs ih =>
      intro g before h hshort
      cases r with
      | post body =>
          obtain ⟨g₁, hpost, hholds⟩ := guestbookPost_eq h body
          have hsplit : before ++ postedBodies (.post body :: rs)
              = before ++ [body.bytes] ++ postedBodies rs := by
            rw [postedBodies, List.append_assoc, List.singleton_append]
          rw [hsplit] at hshort ⊢
          obtain ⟨g', hrun, hholds'⟩ := ih hholds hshort
          refine ⟨g', ?_, hholds'⟩
          rw [guestbookRun, httpGuestbookHandler, hpost, Option.bind_some, hrun]
      | get maxLen =>
          have hshort₀ : before.length < 2 ^ 32 := by
            rw [List.length_append] at hshort
            omega
          obtain ⟨_, hholds⟩ := guestbookGet_eq h hshort₀ maxLen
          obtain ⟨g', hrun, hholds'⟩ := ih hholds hshort
          exact ⟨g', hrun, hholds'⟩

/-- **The guestbook.**  From the empty guestbook, after any requests of which fewer than 2^32 are
POSTs, a GET with room for `maxLen` bytes writes the first `maxLen` bytes of the page of the bodies
posted, and so at most `maxLen`; and between the tags of the page stand texts in which nothing is
left unescaped, whatever the bodies are. -/
theorem guestbook_law (g : Guestbook) (rs : List GuestbookRequest)
    (hstore : g.store.written = 0 ∧ g.store.recBytes = 128 ∧ g.store.cap = 16)
    (hshort : (postedBodies rs).length < 2 ^ 32) :
    ∃ g', guestbookRun g rs = some g' ∧
      (∀ maxLen, ∃ out g₂, httpGuestbookHandler g' (.get maxLen) = some (out, g₂) ∧
        out = (guestbookPage (postedBodies rs)).take maxLen ∧ out.length ≤ maxLen) ∧
      ∃ texts : List (List Byte), (∀ t ∈ texts, Escaped t) ∧
        guestbookPage (postedBodies rs) = ascii "<ul>\n"
          ++ texts.flatMap (fun t => ascii "<li>" ++ t ++ ascii "</li>\n") ++ ascii "</ul>\n" := by
  obtain ⟨hwritten, hrec, hcap⟩ := hstore
  have hempty : g.Holds [] := by
    have h := @storeInit_holds g.store 128 16 4 rfl (by decide)
    have hinit : storeInit g.store 128 16 = g.store := by
      rw [storeInit, ← hwritten, ← hrec, ← hcap]
    rw [hinit] at h
    exact h
  obtain ⟨g', hrun, hholds⟩ := guestbookRun_holds rs hempty hshort
  refine ⟨g', hrun, fun maxLen => ?_,
    (lastOnes guestbookCap (postedBodies rs)).map fun b => htmlEscape (entryText b), ?_, ?_⟩
  · obtain ⟨hout, _⟩ := guestbookGet_eq hholds hshort maxLen
    refine ⟨(guestbookGet g' maxLen).1, _, rfl, hout, ?_⟩
    rw [hout, List.length_take]
    exact Nat.min_le_left ..
  · intro t ht
    obtain ⟨b, _, rfl⟩ := List.mem_map.mp ht
    exact escaped_htmlEscape (entryText b)
  · rw [guestbookPage, List.flatMap_map]
    rfl

def boldBody : PostedBody where
  mem := region 0x1000 (ascii "<b>")
  x0 := 0x1000
  bytes := ascii "<b>"
  stands := stands_region 0x1000 (ascii "<b>")

/-- A body with a tag, between two GETs, and a buffer that is too small for the page. -/
theorem guestbook_law_demo : ∃ g', guestbookRun
      ⟨⟨0, 128, 16, fun _ => 0⟩, fun _ => 0⟩ [.get 1024, .post boldBody, .get 3] = some g' ∧
    ∃ out g₂, httpGuestbookHandler g' (.get 20) = some (out, g₂) ∧
      out = ascii "<ul>\n<li>&lt;b&gt;</" := by
  obtain ⟨g', hrun, hget, _⟩ := guestbook_law ⟨⟨0, 128, 16, fun _ => 0⟩, fun _ => 0⟩
    [.get 1024, .post boldBody, .get 3] ⟨rfl, rfl, rfl⟩ (by decide)
  obtain ⟨out, g₂, hhandler, hout, _⟩ := hget 20
  exact ⟨g', hrun, out, g₂, hhandler, hout.trans (by decide)⟩

end WsPi5
