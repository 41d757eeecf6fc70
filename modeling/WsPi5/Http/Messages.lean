/-
# `WsPi5.Http.Messages` — requests with their bodies

A request is a head and a body; how long the body is stands in the head (RFC 9112, 6.3):

    no Content-Length                       no bytes
    a number, in spaces or tabs             that many bytes
    another value                           the message has no end

`Declares` is this table, and a `Message` a request that has the length it declares.  Heads are
read off their bytes in one way, and so are messages: where one ends, in a stream that begins with
it, depends on the stream alone (`message_unique`, `messages_unique`).

What the parser stores for a Content-Length is not always what is declared.  It is where the value
is readable and either is small enough to be served, or is no longer than what can be buffered
(`stored_declared`, `declared_stored`).
-/
import WsPi5.Http.ContentLength
import WsPi5.Http.Language

namespace WsPi5

open Lib

/-! ## One head -/

theorem split_unique {c : Byte} {ys ys' : List Byte} : ∀ {xs xs' : List Byte},
    xs ++ c :: ys = xs' ++ c :: ys' → (∀ b ∈ xs, b ≠ c) → (∀ b ∈ xs', b ≠ c) →
    xs = xs' ∧ ys = ys' := by
  intro xs
  induction xs with
  | nil =>
      intro xs' h _ hx'
      cases xs' with
      | nil => exact ⟨rfl, (List.cons.inj h).2⟩
      | cons b xs' => exact absurd (List.cons.inj h).1.symm (hx' b (List.mem_cons_self ..))
  | cons b xs ih =>
      intro xs' h hx hx'
      cases xs' with
      | nil => exact absurd (List.cons.inj h).1 (hx b (List.mem_cons_self ..))
      | cons b' xs' =>
          obtain ⟨hb, htail⟩ := List.cons.inj h
          obtain ⟨hxs, hys⟩ := ih htail (fun d hd => hx d (List.mem_cons_of_mem _ hd))
            fun d hd => hx' d (List.mem_cons_of_mem _ hd)
          exact ⟨by rw [hb, hxs], hys⟩

theorem letter_ne_space {b : Byte} (h : IsLetter b) : b ≠ 0x20 := (letter_inName h).1.1

theorem fieldBytes_cons {f : List Byte × List Byte} (h : FieldValid f) (rest : List Byte) :
    ∃ c cs, IsLetter c ∧ fieldBytes f ++ rest = c :: cs := by
  obtain ⟨c, cs, hname, hletter⟩ := h.start
  exact ⟨c, cs ++ 0x3A :: (f.2 ++ [0x0D, 0x0A]) ++ rest, hletter, by simp [fieldBytes, hname]⟩

theorem fields_unique : ∀ {fs fs' : List (List Byte × List Byte)} {rest rest' : List Byte},
    (∀ f ∈ fs, FieldValid f) → (∀ f ∈ fs', FieldValid f) →
    fs.flatMap fieldBytes ++ 0x0D :: rest = fs'.flatMap fieldBytes ++ 0x0D :: rest' → fs = fs' := by
  have hcr : ¬ IsLetter 0x0D := by decide
  intro fs
  induction fs with
  | nil =>
      intro fs' rest rest' _ hv' h
      cases fs' with
      | nil => rfl
      | cons f' fs' =>
          obtain ⟨c, cs, hletter, hbytes⟩ := fieldBytes_cons (hv' f' (List.mem_cons_self ..))
            (fs'.flatMap fieldBytes ++ 0x0D :: rest')
          rw [List.flatMap_cons, List.append_assoc, hbytes] at h
          exact absurd ((List.cons.inj h).1 ▸ hletter) hcr
  | cons f fs ih =>
      intro fs' rest rest' hv hv' h
      have hf := hv f (List.mem_cons_self ..)
      cases fs' with
      | nil =>
          obtain ⟨c, cs, hletter, hbytes⟩ := fieldBytes_cons hf
            (fs.flatMap fieldBytes ++ 0x0D :: rest)
          rw [List.flatMap_cons, List.append_assoc, hbytes] at h
          exact absurd ((List.cons.inj h).1 ▸ hletter) hcr
      | cons f' fs' =>
          have hf' := hv' f' (List.mem_cons_self ..)
          simp only [List.flatMap_cons, fieldBytes, List.append_assoc, List.cons_append,
            List.nil_append] at h
          obtain ⟨hname, h⟩ := split_unique h (fun b hb => (hf.name b hb).2)
            fun b hb => (hf'.name b hb).2
          obtain ⟨hvalue, h⟩ := split_unique h (fun b hb => (hf.value b hb).1)
            fun b hb => (hf'.value b hb).1
          have hrest := ih (fun g hg => hv g (List.mem_cons_of_mem _ hg))
            (fun g hg => hv' g (List.mem_cons_of_mem _ hg)) (List.cons.inj h).2
          rw [hrest, Prod.ext hname hvalue]

/-- **A head is read off its bytes in one way.** -/
theorem bytes_unique {h h' : RequestHead} (hv : h.Valid) (hv' : h'.Valid)
    (heq : h.bytes = h'.bytes) : h = h' := by
  simp only [RequestHead.bytes, RequestHead.lines, RequestHead.line, RequestHead.upTo,
    List.append_assoc, List.cons_append, List.nil_append] at heq
  obtain ⟨hmethod, heq⟩ := split_unique heq (fun b hb => letter_ne_space (hv.method b hb))
    fun b hb => letter_ne_space (hv'.method b hb)
  obtain ⟨huri, heq⟩ := split_unique heq (fun b hb => (hv.uri.2 b hb).1)
    fun b hb => (hv'.uri.2 b hb).1
  obtain ⟨hversion, heq⟩ := List.append_inj heq (hv.version.1.trans hv'.version.1.symm)
  simp only [List.cons.injEq, true_and] at heq
  obtain ⟨hmajor, hminor, heq⟩ := heq
  have hfields := fields_unique hv.fields hv'.fields heq
  obtain ⟨m, u, v, ma, mi, fs⟩ := h
  obtain ⟨m', u', v', ma', mi', fs'⟩ := h'
  dsimp only at hmethod huri hversion hmajor hminor hfields
  rw [hmethod, huri, hversion, hmajor, hminor, hfields]

theorem head_unique {h h' : RequestHead} {bs : List Byte} (hv : h.Valid) (hv' : h'.Valid)
    (hbs : h.bytes <+: bs) (hbs' : h'.bytes <+: bs) : h = h' := by
  have hfresh : Fresh {} := ⟨rfl, rfl, rfl, rfl⟩
  have hlen : h.bytes.length = h'.bytes.length :=
    (parse_head hv hbs hfresh).reqLen.symm.trans (parse_head hv' hbs' hfresh).reqLen
  have hpre := List.prefix_of_prefix_length_le hbs hbs' (Nat.le_of_eq hlen)
  exact bytes_unique hv hv' (hpre.eq_of_length hlen)

/-! ## The declared length -/

/-- The body is declared to have this many bytes. -/
inductive RequestHead.Declares (h : RequestHead) : Nat → Prop
  | none (hno : h.lengths = []) : h.Declares 0
  | value {f : List Byte × List Byte} {ws ds ws' : List Byte} (hf : f ∈ h.lengths)
      (hform : LengthForm f.2 ws ds ws') : h.Declares (decimal ds)

theorem lengths_unique {h : RequestHead} (hv : h.Valid) {f g : List Byte × List Byte}
    (hf : f ∈ h.lengths) (hg : g ∈ h.lengths) : f = g := by
  have honce := hv.once
  match hl : h.lengths with
  | [] =>
      rw [hl] at hf
      exact absurd hf List.not_mem_nil
  | [x] =>
      rw [hl] at hf hg
      rw [List.mem_singleton.mp hf, List.mem_singleton.mp hg]
  | _ :: _ :: _ =>
      rw [hl] at honce
      simp at honce

theorem Declares.unique {h : RequestHead} (hv : h.Valid) {n m : Nat} (hn : h.Declares n)
    (hm : h.Declares m) : n = m := by
  cases hn with
  | none hno =>
      cases hm with
      | none _ => rfl
      | value hf _ =>
          rw [hno] at hf
          exact absurd hf List.not_mem_nil
  | value hf hform =>
      cases hm with
      | none hno =>
          rw [hno] at hf
          exact absurd hf List.not_mem_nil
      | value hg hform' =>
          rw [lengths_unique hv hg hf] at hform'
          rw [hform.filter.symm.trans hform'.filter]

/-! ## Messages -/

/-- A request with the body it declares. -/
structure Message where
  head : RequestHead
  body : List Byte
  valid : head.Valid
  declared : head.Declares body.length

def Message.bytes (m : Message) : List Byte := m.head.bytes ++ m.body

/-- **A stream begins with one message**, if with any. -/
theorem message_unique {m m' : Message} {bs : List Byte} (h : m.bytes <+: bs)
    (h' : m'.bytes <+: bs) : m.bytes = m'.bytes := by
  have hhead : m.head = m'.head :=
    head_unique m.valid m'.valid ((List.prefix_append _ _).trans h)
      ((List.prefix_append _ _).trans h')
  have hdeclared := m'.declared
  rw [← hhead] at hdeclared
  have hlen : m.bytes.length = m'.bytes.length := by
    rw [Message.bytes, Message.bytes, List.length_append, List.length_append, hhead,
      Declares.unique m.valid m.declared hdeclared]
  exact (List.prefix_of_prefix_length_le h h' (Nat.le_of_eq hlen)).eq_of_length hlen

/-- A string is divided into messages in one way: as many from its front are the same bytes, each. -/
theorem messages_unique : ∀ {ms ms' : List Message} {bs : List Byte},
    ms.flatMap Message.bytes <+: bs → ms'.flatMap Message.bytes <+: bs → ms.length = ms'.length →
    ms.map Message.bytes = ms'.map Message.bytes := by
  intro ms
  induction ms with
  | nil =>
      intro ms' _ _ _ hlen
      rw [List.eq_nil_of_length_eq_zero hlen.symm]
  | cons m ms ih =>
      intro ms' bs h h' hlen
      cases ms' with
      | nil => cases hlen
      | cons m' ms' =>
          rw [List.flatMap_cons] at h h'
          have hfirst := message_unique ((List.prefix_append _ _).trans h)
            ((List.prefix_append _ _).trans h')
          obtain ⟨more, rfl⟩ := (List.prefix_append _ _).trans h
          rw [← hfirst] at h'
          have hrest := ih ((List.prefix_append_right_inj _).mp h)
            ((List.prefix_append_right_inj _).mp h') (Nat.succ.inj hlen)
          rw [List.map_cons, List.map_cons, hfirst, hrest]

theorem exists_message {h : RequestHead} {n : Nat} {rest : List Byte} (hv : h.Valid)
    (hn : h.Declares n) (hpre : h.bytes <+: rest) (hfit : h.bytes.length + n ≤ rest.length) :
    ∃ m : Message, m.head = h ∧ m.body.length = n ∧ m.bytes = rest.take (h.bytes.length + n) := by
  obtain ⟨more, rfl⟩ := hpre
  rw [List.length_append] at hfit
  have hlen : (more.take n).length = n := List.length_take_of_le (by omega)
  refine ⟨⟨h, more.take n, hv, hlen.symm ▸ hn⟩, rfl, hlen, ?_⟩
  show h.bytes ++ more.take n = _
  rw [List.take_append, List.take_of_length_le (Nat.le_add_right _ _), Nat.add_sub_cancel_left]

/-! ## What is stored for it -/

theorem stored_declared {v : List Byte} (hread : LengthReadable v)
    (hsmall : clValue v ≤ httpMaxRecvBody) :
    ∃ ws ds ws', LengthForm v ws ds ws' ∧ clValue v = decimal ds := by
  obtain ⟨ws, ds, ws', hform, hle, hgt⟩ := (lengthLaw_iff v).mpr hread
  refine ⟨ws, ds, ws', hform, ?_⟩
  by_cases hds : decimal ds ≤ httpMaxRecvBody
  · exact hle hds
  · exact absurd (hgt (Nat.not_le.mp hds)) (Nat.not_lt.mpr hsmall)

/-- The loop takes all digits of a number that is less than ten times what it stops at. -/
theorem capDigits_all {ws' : List Byte} (hws' : ∀ b ∈ ws', IsOws b) :
    ∀ {ds : List Byte} {n : Nat}, (∀ b ∈ ds, IsDecDigit b) → n ≤ httpMaxRecvBody →
      decimalFrom n ds < 10 * (httpMaxRecvBody + 1) →
      capDigits (ds ++ ws') n = decimalFrom n ds := by
  intro ds
  induction ds with
  | nil =>
      intro n _ hn _
      exact (@capDigits_digits ws' hws' [] n (by simp) hn).1 hn
  | cons b ds ih =>
      intro n hds hn hlt
      have hdigit : capDigits (b :: ds ++ ws') n =
          if httpMaxRecvBody < n * 10 + (b - 0x30).toNat then n * 10 + (b - 0x30).toNat
          else capDigits (ds ++ ws') (n * 10 + (b - 0x30).toNat) :=
        if_pos (hds b (List.mem_cons_self ..))
      have hfold : decimalFrom n (b :: ds) = decimalFrom (n * 10 + (b - 0x30).toNat) ds := rfl
      rw [hfold] at hlt
      rw [hdigit, hfold]
      by_cases hbig : httpMaxRecvBody < n * 10 + (b - 0x30).toNat
      · rw [if_pos hbig]
        -- one more digit would make it ten times as large
        cases ds with
        | nil => rfl
        | cons d ds =>
            have hge := decimalFrom_ge ds ((n * 10 + (b - 0x30).toNat) * 10 + (d - 0x30).toNat)
            have hmore : decimalFrom (n * 10 + (b - 0x30).toNat) (d :: ds) =
              decimalFrom ((n * 10 + (b - 0x30).toNat) * 10 + (d - 0x30).toNat) ds := rfl
            omega
      · rw [if_neg hbig]
        exact ih (fun x hx => hds x (List.mem_cons_of_mem _ hx)) (Nat.not_lt.mp hbig) hlt

theorem declared_stored {v ws ds ws' : List Byte} (hread : LengthReadable v)
    (hform : LengthForm v ws ds ws') (hlt : decimal ds < 10 * (httpMaxRecvBody + 1)) :
    clValue v = decimal ds := by
  obtain ⟨us, es, us', hform', hlead⟩ := hread
  obtain rfl : es = ds := hform'.filter.symm.trans hform.filter
  by_cases hsp : ∀ b ∈ us, b = 0x20
  · rw [hform'.eq, clValue_spaces hsp hform'.some hform'.digits]
    exact capDigits_all hform'.trail hform'.digits (Nat.zero_le _) hlt
  · rw [hlead.resolve_left hsp, hform'.eq]
    exact clValue_tab hform'.lead hsp

end WsPi5
