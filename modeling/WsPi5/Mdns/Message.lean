/-
# `WsPi5.Mdns.Message` — questions and answers of `lib/mdns.S`

The responder answers one kind of question: the address (A or ANY, class IN) of `hostname.local`.
`mdns_build_response` reads the query in place, over a partial memory in which a read outside the
payload has no result.

    header        QR = 0, QDCOUNT = 1
    QNAME         labels to the root, nothing compressed; the two labels of our name without case
    QTYPE         1 or 255
    QCLASS        1, less the top bit

The response is the announcement with the identification of the query.  What is behind the question
(the authority section of a probe) is not read.

`labelLoop` is the walk over the labels of a name.  The source has it three times (`.Lmb_label`,
`.Lsn_loop`, `.Lcc_term_loop`) with the same tests in the same order; what it does at each of the
four ends is the caller's.

**Proved here** (`mdns_answers_own_name`), for every host name that is a label and every payload:
`mdns_build_response` ends, reads nothing but the payload, and responds exactly to a query for our
name (`AsksFor`); the response is decoded as one A record; and the probe of a peer is answered
exactly when its name is ours without case.  The length is signed in the first comparison, so that
a payload is shorter than 2^31; a datagram has 2^16 bytes at most.
-/
import WsPi5.Dhcp.Inbound
import WsPi5.Lib.Dns

namespace WsPi5

open Lib

/-! ## The code -/

def toLower (b : Byte) : Byte := if b < 0x41 then b else if 0x5A < b then b else b + 0x20

def localStr : List Byte := [0x6C, 0x6F, 0x63, 0x61, 0x6C]

/-- The ends of a walk over labels: past the payload, at the root, at a byte with one of the two
top bits, at a length above `MAX_LABEL_LEN`. -/
inductive LabelStop where
  | past
  | root (w : Nat)
  | top (w : Nat)
  | long
  deriving DecidableEq, Repr

section
variable (mem : Nat → Option Byte)

/-- From offset `w` on over labels, at most `n` turns. -/
def labelLoop (x19 w20 : Nat) : Nat → Nat → Option LabelStop
  | 0, w => if w20 ≤ w then some .past else none
  | n + 1, w =>
      if w20 ≤ w then some .past
      else (mem (x19 + w)).bind fun w0 =>
        if w0 = 0 then some (.root w)
        else if w0 &&& 0xC0 ≠ 0 then some (.top w)
        else if 63 < w0 then some .long
        else labelLoop x19 w20 n (w + 1 + w0.toNat)

/-- The bytes from `p` on, in lower case, are these; up to the first that differs. -/
def lowerAre : Nat → List Byte → Option Bool
  | _, [] => some true
  | p, w1 :: ws => (mem p).bind fun w0 =>
      if toLower w0 ≠ w1 then some false else lowerAre (p + 1) ws

/-- `_qname_eq_hostname_local`: the labels in `[x23, x24)`. -/
def qnameEqHostnameLocal (hostname : List Byte) (x19 x23 x24 : Nat) : Option Bool :=
  if hostname.length = 0 then some false
  else if x24 - x23 ≠ hostname.length + 7 then some false
  else (mem (x19 + x23)).bind fun w0 =>
    if w0.toNat ≠ hostname.length then some false
    else (lowerAre mem (x19 + x23 + 1) (hostname.map toLower)).bind fun same =>
      if !same then some false
      else (mem (x19 + x23 + 1 + hostname.length)).bind fun w0 =>
        if w0 ≠ 5 then some false
        else lowerAre mem (x19 + x23 + 1 + hostname.length + 1) localStr

end

/-- `mdns_build_probe_payload`: the bytes and the length that is returned. -/
def mdnsBuildProbePayload (hostname : List Byte) : List Byte × Nat :=
  if hostname.length = 0 then ([], 0)
  else ([0, 0, 0, 0, 0, 1, 0, 0, 0, 0, 0, 0] ++ [UInt8.ofNat hostname.length] ++ hostname ++
    [5, 0x6C, 0x6F, 0x63, 0x61, 0x6C, 0] ++ [0, 0xFF, 0, 1], hostname.length + 24)

def mdnsBuildAnnouncePayload (hostname : List Byte) (ourIp : W) : List Byte × Nat :=
  if hostname.length = 0 then ([], 0)
  else ([0, 0, 0x84, 0, 0, 0, 0, 1, 0, 0, 0, 0] ++ [UInt8.ofNat hostname.length] ++ hostname ++
    [5, 0x6C, 0x6F, 0x63, 0x61, 0x6C, 0] ++ [0, 1, 0x80, 1, 0, 0, 0, 0x78, 0, 4] ++
    leBytes 4 ourIp.toNat, hostname.length + 34)

/-- `.Lmb_drop`: nothing is written. -/
def mdnsDrop : List Byte × Nat := ([], 0)

section
variable (mem : Nat → Option Byte) (hostname : List Byte) (ourIp : W)

/-- From `.Lmb_qname_end` on: type, class and name, and the response. -/
def mdnsQuestion (x19 w20 x24 : Nat) : Option (List Byte × Nat) :=
  if w20 < x24 + 5 then some mdnsDrop
  else (mem (x19 + (x24 + 1))).bind fun w1 => (mem (x19 + (x24 + 2))).bind fun w2 =>
    if w1 ≠ 0 then some mdnsDrop
    else if w2 ≠ 1 ∧ w2 ≠ 255 then some mdnsDrop
    else (mem (x19 + (x24 + 3))).bind fun w1 => (mem (x19 + (x24 + 4))).bind fun w2 =>
      if w1 &&& 0x7F ≠ 0 then some mdnsDrop
      else if w2 ≠ 1 then some mdnsDrop
      else (qnameEqHostnameLocal mem hostname x19 12 x24).bind fun same =>
        if !same then some mdnsDrop
        else
          let announced := mdnsBuildAnnouncePayload hostname ourIp
          if announced.2 = 0 then some mdnsDrop
          else (mem x19).bind fun id0 => (mem (x19 + 1)).map fun id1 =>
            ((announced.1.set 0 id0).set 1 id1, announced.2)

/-- `mdns_build_response`: the bytes of the response and its length, which is 0 if there is none. -/
def mdnsBuildResponse (x0 w1 : Nat) : Option (List Byte × Nat) :=
  if (BitVec.ofNat 32 w1).toInt < 12 then some mdnsDrop
  else (mem (x0 + 2)).bind fun w0 =>
    if w0 &&& 0x80 ≠ 0 then some mdnsDrop
    else (mem (x0 + 4)).bind fun w0 =>
      if w0 ≠ 0 then some mdnsDrop
      else (mem (x0 + 5)).bind fun w0 =>
        if w0 ≠ 1 then some mdnsDrop
        else (labelLoop mem x0 w1 w1 12).bind fun
          | .root x24 => mdnsQuestion mem hostname ourIp x0 w1 x24
          | _ => some mdnsDrop

end

/-! ## The reference -/

/-- The label `local`. -/
def localLabel : Label := ⟨localStr, by decide, by decide⟩

/-- The name `host.local`, uncompressed and without case. -/
def IsOurName (host : Label) (n : DnsName) : Prop :=
  n.pointer = none ∧ n.labels.map Label.fold = [host.fold, localLabel]

instance (host : Label) (n : DnsName) : Decidable (IsOurName host n) :=
  inferInstanceAs (Decidable (_ ∧ _))

/-- A question for the address of a host. -/
structure AsksAddress (host : Label) (q : DnsQuestion) : Prop where
  name : IsOurName host q.name
  qtype : q.qtype = 1 ∨ q.qtype = 255
  qclass : q.qclass &&& 0x7FFF = 1

instance (host : Label) (q : DnsQuestion) : Decidable (AsksAddress host q) :=
  decidable_of_iff (IsOurName host q.name ∧ (q.qtype = 1 ∨ q.qtype = 255) ∧ q.qclass &&& 0x7FFF = 1)
    ⟨fun h => ⟨h.1, h.2.1, h.2.2⟩, fun h => ⟨h.name, h.qtype, h.qclass⟩⟩

/-- A query with this identification and one question, which is for our address. -/
def AsksFor (host : Label) (id : BitVec 16) (payload : List Byte) : Prop :=
  ∃ flags an ns ar q rest, payload = dnsHeader id flags 1 an ns ar ++ (q.encode ++ rest) ∧
    flags.msb = false ∧ AsksAddress host q

/-- Our address record: class IN with the flag that flushes caches, two minutes. -/
def addressRecord (host : Label) (ourIp : W) : DnsRecord where
  name := .plain [host, localLabel]
  type := 1
  rclass := 0x8001
  ttl := 120
  data := leBytes 4 ourIp.toNat
  short := by
    rw [leBytes_length]
    decide

/-- The response: authoritative, one answer, no question. -/
def addressResponse (host : Label) (ourIp : W) (id : BitVec 16) : DnsMessage where
  id := id
  flags := 0x8400
  questions := []
  answers := [addressRecord host ourIp]
  authority := []
  additional := []

/-! ## The walk over labels -/

section
variable {mem : Nat → Option Byte} {x19 w20 w n : Nat} {host : Label}

theorem labelLoop_labels {ls : List Label} {bs : List Byte} {stop : LabelStop}
    (hbs : ∀ n, bs.length ≤ n → labelLoop mem x19 w20 n (w + (labelBytes ls).length) = some stop)
    (h : Stands mem (x19 + w) (labelBytes ls ++ bs))
    (hend : w + (labelBytes ls ++ bs).length = w20) (hn : (labelBytes ls ++ bs).length ≤ n) :
    labelLoop mem x19 w20 n w = some stop := by
  induction ls generalizing w n with
  | nil => exact hbs n hn
  | cons l ls ih =>
      have hsplit : labelBytes (l :: ls) ++ bs
          = UInt8.ofNat l.bytes.length :: (l.bytes ++ (labelBytes ls ++ bs)) := by
        rw [labelBytes_cons, List.cons_append, List.append_assoc]
      have hlong : ¬ 63 < UInt8.ofNat l.bytes.length := by
        rw [UInt8.lt_iff_toNat_lt, l.length_toNat]
        exact Nat.not_lt.mpr l.short
      have hskip : (labelBytes (l :: ls)).length
          = 1 + l.bytes.length + (labelBytes ls).length := by
        rw [labelBytes_cons, List.length_cons, List.length_append]
        omega
      rw [hsplit] at h hend hn
      rw [List.length_cons, List.length_append] at hend hn
      cases n with
      | zero => exact absurd hn (Nat.not_le.mpr (Nat.succ_pos _))
      | succ n =>
          have hrest : Stands mem (x19 + (w + 1 + l.bytes.length)) (labelBytes ls ++ bs) := by
            have htail := h.tail.right
            rwa [Nat.add_assoc, Nat.add_assoc, ← Nat.add_assoc w] at htail
          rw [labelLoop, if_neg (by omega), h.head, Option.bind_some, if_neg l.length_ne_zero,
            if_neg (fun hne => hne l.length_top), if_neg hlong, l.length_toNat]
          refine ih (fun n hn => ?_) hrest (by omega) (by omega)
          rw [← hbs n hn, hskip]
          congr 1
          omega

theorem labelLoop_root {ls : List Label} {rest : List Byte}
    (h : Stands mem (x19 + w) (labelBytes ls ++ 0 :: rest))
    (hend : w + (labelBytes ls ++ 0 :: rest).length = w20)
    (hn : (labelBytes ls ++ 0 :: rest).length ≤ n) :
    labelLoop mem x19 w20 n w = some (.root (w + (labelBytes ls).length)) := by
  refine labelLoop_labels (fun n hn => ?_) h hend hn
  have hzero := h.right.head
  rw [List.length_append, List.length_cons] at hend
  rw [Nat.add_assoc] at hzero
  cases n with
  | zero => cases hn
  | succ n => rw [labelLoop, if_neg (by omega), hzero, Option.bind_some, if_pos rfl]

theorem labelLoop_top {ls : List Label} {b : Byte} {rest : List Byte} (hb : b &&& 0xC0 ≠ 0)
    (h : Stands mem (x19 + w) (labelBytes ls ++ b :: rest))
    (hend : w + (labelBytes ls ++ b :: rest).length = w20)
    (hn : (labelBytes ls ++ b :: rest).length ≤ n) :
    labelLoop mem x19 w20 n w = some (.top (w + (labelBytes ls).length)) := by
  refine labelLoop_labels (fun n hn => ?_) h hend hn
  have hcell := h.right.head
  have hne : b ≠ 0 := by
    intro h0
    rw [h0] at hb
    exact hb rfl
  rw [List.length_append, List.length_cons] at hend
  rw [Nat.add_assoc] at hcell
  cases n with
  | zero => cases hn
  | succ n =>
      rw [labelLoop, if_neg (by omega), hcell, Option.bind_some, if_neg hne, if_pos hb]

theorem labelLoop_spec {bs : List Byte} (h : Stands mem (x19 + w) bs) (hend : w + bs.length = w20)
    (hn : bs.length ≤ n) : ∃ stop, labelLoop mem x19 w20 n w = some stop ∧
      ∀ w', stop = .root w' → ∃ ls rest, bs = labelBytes ls ++ 0 :: rest := by
  induction n generalizing w bs with
  | zero =>
      have hnil : bs = [] := List.eq_nil_of_length_eq_zero (Nat.le_zero.mp hn)
      subst hnil
      exact ⟨.past, if_pos (Nat.le_of_eq hend.symm), fun _ hstop => nomatch hstop⟩
  | succ n ih =>
      cases bs with
      | nil => exact ⟨.past, if_pos (Nat.le_of_eq hend.symm), fun _ hstop => nomatch hstop⟩
      | cons b bs =>
          rw [List.length_cons] at hend hn
          rw [labelLoop, if_neg (by omega), h.head, Option.bind_some]
          by_cases h0 : b = 0
          · rw [if_pos h0, h0]
            exact ⟨_, rfl, fun _ _ => ⟨[], bs, rfl⟩⟩
          rw [if_neg h0]
          by_cases htop : b &&& 0xC0 ≠ 0
          · rw [if_pos htop]
            exact ⟨_, rfl, fun _ hstop => nomatch hstop⟩
          rw [if_neg htop]
          have hb64 : b.toNat < 64 := (and_C0_eq_zero b).mp (not_not.mp htop)
          have hlong : ¬ 63 < b := by
            rw [UInt8.lt_iff_toNat_lt]
            exact Nat.not_lt.mpr (Nat.le_of_lt_succ hb64)
          rw [if_neg hlong]
          by_cases hfit : b.toNat ≤ bs.length
          · have hpos : 0 < b.toNat := by
              rw [Nat.pos_iff_ne_zero]
              exact fun hz => h0 (UInt8.toNat_inj.mp hz)
            have htake : (bs.take b.toNat).length = b.toNat := List.length_take_of_le hfit
            have hdrop : (bs.drop b.toNat).length = bs.length - b.toNat := List.length_drop
            have hrest : Stands mem (x19 + (w + 1 + b.toNat)) (bs.drop b.toNat) := by
              have htail := h.tail.drop hfit
              rwa [Nat.add_assoc, Nat.add_assoc, ← Nat.add_assoc w] at htail
            obtain ⟨stop, hloop, hroot⟩ := ih hrest (by omega) (by omega)
            refine ⟨stop, hloop, fun w' hw' => ?_⟩
            obtain ⟨ls, rest, hls⟩ := hroot w' hw'
            have hlabel : UInt8.ofNat (bs.take b.toNat).length = b := by
              rw [htake, UInt8.ofNat_toNat]
            refine ⟨⟨bs.take b.toNat, by omega, by omega⟩ :: ls, rest, ?_⟩
            rw [labelBytes_cons, hlabel, List.cons_append, List.append_assoc, ← hls,
              List.take_append_drop]
          · -- the label is longer than what is left
            refine ⟨.past, ?_, fun _ hstop => nomatch hstop⟩
            cases n with
            | zero => exact if_pos (by omega)
            | succ n => exact if_pos (by omega)

end

/-! ## The name -/

theorem toLower_eq (b : Byte) : toLower b = foldCase b := by
  rw [toLower, foldCase]
  by_cases hlo : b < 0x41
  · rw [if_pos hlo, if_neg fun hup => absurd hup.1 (UInt8.not_le.mpr hlo)]
  rw [if_neg hlo]
  by_cases hhi : 0x5A < b
  · rw [if_pos hhi, if_neg fun hup => absurd hup.2 (UInt8.not_le.mpr hhi)]
  · rw [if_neg hhi, if_pos ⟨UInt8.not_lt.mp hlo, UInt8.not_lt.mp hhi⟩]

theorem map_toLower (bs : List Byte) : bs.map toLower = bs.map foldCase :=
  List.map_congr_left fun b _ => toLower_eq b

section
variable {mem : Nat → Option Byte} {p : Nat}

theorem lowerAre_eq {xs ws : List Byte} (h : Stands mem p xs) (hlen : xs.length = ws.length) :
    lowerAre mem p ws = some (decide (xs.map foldCase = ws)) := by
  induction ws generalizing p xs with
  | nil =>
      rw [List.eq_nil_of_length_eq_zero hlen]
      rfl
  | cons w ws ih =>
      cases xs with
      | nil => cases hlen
      | cons x xs =>
          rw [lowerAre, h.head, Option.bind_some, toLower_eq, List.map_cons]
          by_cases hx : foldCase x = w
          · rw [if_neg (fun hne => hne hx), ih h.tail (Nat.succ.inj hlen), hx]
            simp only [List.cons.injEq, true_and]
          · rw [if_pos hx, decide_eq_false fun heq => hx (List.cons.inj heq).1]

theorem ourLabels_eq (host : Label) : labelBytes [host.fold, localLabel]
    = UInt8.ofNat host.bytes.length :: (host.bytes.map foldCase ++ 5 :: localStr) := by
  have hlen : host.fold.bytes.length = host.bytes.length := List.length_map foldCase
  rw [labelBytes_cons, hlen]
  rfl

theorem ourLabels_length (host : Label) :
    (labelBytes [host.fold, localLabel]).length = host.bytes.length + 7 := by
  rw [ourLabels_eq, List.length_cons, List.length_append, List.length_map]
  rfl

theorem qnameEqHostnameLocal_eq {host : Label} {x19 x23 : Nat} {bs : List Byte}
    (h : Stands mem (x19 + x23) bs) :
    qnameEqHostnameLocal mem host.bytes x19 x23 (x23 + bs.length)
      = some (decide (bs.map foldCase = labelBytes [host.fold, localLabel])) := by
  rw [qnameEqHostnameLocal, if_neg (Nat.ne_of_gt host.nonempty), Nat.add_sub_cancel_left]
  by_cases hlen : bs.length = host.bytes.length + 7
  swap
  · have hne : bs.map foldCase ≠ labelBytes [host.fold, localLabel] := by
      intro heq
      rw [← ourLabels_length, ← heq, List.length_map] at hlen
      exact hlen rfl
    rw [if_pos hlen, decide_eq_false hne]
  rw [if_neg (fun hne => hne hlen), ourLabels_eq]
  -- the length, the host, the length of the second label, the second label
  obtain ⟨b, tail, rfl⟩ := List.exists_cons_of_length_pos (by omega : 0 < bs.length)
  rw [List.length_cons] at hlen
  obtain ⟨hs, five, ls, rfl, hhs⟩ : ∃ hs five ls, tail = hs ++ five :: ls ∧
      hs.length = host.bytes.length := by
    have hcut : (tail.drop host.bytes.length).length = 6 := by
      rw [List.length_drop]
      omega
    obtain ⟨five, ls, hsplit⟩ := List.exists_cons_of_length_pos (by omega : 0 <
      (tail.drop host.bytes.length).length)
    refine ⟨tail.take host.bytes.length, five, ls, ?_, List.length_take_of_le (by omega)⟩
    rw [← hsplit, List.take_append_drop]
  rw [List.length_append, List.length_cons] at hlen
  have hbyte : b.toNat = host.bytes.length ↔ foldCase b = UInt8.ofNat host.bytes.length := by
    constructor
    · intro hb
      have hlow : b < 0x41 := by
        have hshort := host.short
        rw [UInt8.lt_iff_toNat_lt, hb]
        exact Nat.lt_of_le_of_lt hshort (by decide)
      rw [foldCase_of_lt hlow, ← hb, UInt8.ofNat_toNat]
    · intro hb
      rw [eq_of_foldCase host.length_lt hb, host.length_toNat]
  have hstands := h.tail
  have hfive : mem (x19 + x23 + 1 + host.bytes.length) = some five := by
    rw [← hhs]
    exact hstands.right.head
  have hlocal : Stands mem (x19 + x23 + 1 + host.bytes.length + 1) ls := by
    rw [← hhs]
    exact hstands.right.tail
  rw [h.head, Option.bind_some, List.map_cons, List.map_append, List.map_cons]
  by_cases hb : b.toNat = host.bytes.length
  swap
  · rw [if_pos hb, decide_eq_false fun heq => hb (hbyte.mpr (List.cons.inj heq).1)]
  rw [if_neg (fun hne => hne hb), hbyte.mp hb, map_toLower,
    lowerAre_eq hstands.left (by rw [List.length_map, hhs]), Option.bind_some]
  by_cases hhost : hs.map foldCase = host.bytes.map foldCase
  swap
  · rw [decide_eq_false hhost]
    refine congrArg some (decide_eq_false fun heq => hhost ?_).symm
    exact (List.append_inj (List.cons.inj heq).2 (by rw [List.length_map, List.length_map, hhs])).1
  rw [decide_eq_true hhost, hhost]
  show (if (!true) = true then _ else _) = _
  rw [if_neg (by decide), hfive, Option.bind_some]
  by_cases h5 : five = 5
  swap
  · have hfold : foldCase five ≠ 5 := fun hf => h5 (eq_of_foldCase (by decide) hf)
    rw [if_pos h5, decide_eq_false]
    intro heq
    exact hfold (List.cons.inj (List.append_cancel_left (List.cons.inj heq).2)).1
  rw [if_neg (fun hne => hne h5), lowerAre_eq hlocal (by show ls.length = 5; omega), h5]
  congr 2
  rw [List.cons.injEq, List.append_cancel_left_eq, List.cons.injEq]
  simp [foldCase_of_lt]

end

theorem isOurName_iff {host : Label} {ls : List Label} :
    IsOurName host ⟨ls, none⟩ ↔
      (labelBytes ls).map foldCase = labelBytes [host.fold, localLabel] := by
  rw [labelBytes_fold]
  exact ⟨fun h => congrArg labelBytes h.2, fun h => ⟨rfl, labelBytes_injective h⟩⟩

/-! ## What is built -/

theorem localLabel_fold : localLabel.fold = localLabel := by decide

/-- The question of a probe: any type, class IN. -/
def probeQuestion (host : Label) : DnsQuestion := ⟨.plain [host, localLabel], 255, 1⟩

theorem ourName_encode (host : Label) : (DnsName.plain [host, localLabel]).encode
    = UInt8.ofNat host.bytes.length :: (host.bytes ++ [5, 0x6C, 0x6F, 0x63, 0x61, 0x6C, 0]) := by
  rw [DnsName.encode, DnsName.plain, labelBytes_cons, List.cons_append, List.append_assoc]
  rfl

theorem mdnsBuildProbePayload_eq (host : Label) : mdnsBuildProbePayload host.bytes
    = (dnsHeader 0 0 1 0 0 0 ++ (probeQuestion host).encode, host.bytes.length + 24) := by
  rw [mdnsBuildProbePayload, if_neg (Nat.ne_of_gt host.nonempty), DnsQuestion.encode]
  show _ = (dnsHeader 0 0 1 0 0 0 ++
    ((DnsName.plain [host, localLabel]).encode ++ netWord 255 ++ netWord 1), _)
  rw [ourName_encode]
  simp only [List.append_assoc, List.cons_append, List.nil_append]
  rfl

theorem addressRecord_fixed (host : Label) (ourIp : W) :
    (addressRecord host ourIp).fixed = [0, 1, 0x80, 1, 0, 0, 0, 0x78, 0, 4] := by
  rw [DnsRecord.fixed]
  show netWord 1 ++ netWord 0x8001 ++ netBytes 4 120 ++ netBytes 2 (leBytes 4 _).length = _
  rw [leBytes_length]
  rfl

theorem addressResponse_encode (host : Label) (ourIp : W) (id : BitVec 16) :
    (addressResponse host ourIp id).encode = dnsHeader id 0x8400 0 1 0 0 ++
      (UInt8.ofNat host.bytes.length :: (host.bytes ++ ([5, 0x6C, 0x6F, 0x63, 0x61, 0x6C, 0] ++
        ([0, 1, 0x80, 1, 0, 0, 0, 0x78, 0, 4] ++ leBytes 4 ourIp.toNat)))) := by
  have hrecord : (addressRecord host ourIp).encode =
      (DnsName.plain [host, localLabel]).encode ++ (addressRecord host ourIp).fixed ++
        leBytes 4 ourIp.toNat := rfl
  have hmessage : (addressResponse host ourIp id).encode = dnsHeader id 0x8400 0 1 0 0 ++
      ([] ++ ((addressRecord host ourIp).encode ++ [] ++ ([] ++ []))) := rfl
  rw [hmessage, hrecord, ourName_encode, addressRecord_fixed]
  simp only [List.append_assoc, List.cons_append, List.nil_append, List.append_nil]

theorem mdnsBuildAnnouncePayload_eq (host : Label) (ourIp : W) (id : BitVec 16) :
    ((mdnsBuildAnnouncePayload host.bytes ourIp).1.set 0 (UInt8.ofNat (id.toNat / 256))).set 1
      (UInt8.ofNat id.toNat) = (addressResponse host ourIp id).encode := by
  rw [addressResponse_encode, mdnsBuildAnnouncePayload, if_neg (Nat.ne_of_gt host.nonempty)]
  simp only [List.append_assoc, List.cons_append, List.nil_append]
  rfl

theorem mdnsBuildAnnouncePayload_length (host : Label) (ourIp : W) :
    (mdnsBuildAnnouncePayload host.bytes ourIp).2 = host.bytes.length + 34 := by
  rw [mdnsBuildAnnouncePayload, if_neg (Nat.ne_of_gt host.nonempty)]

theorem addressResponse_length (host : Label) (ourIp : W) (id : BitVec 16) :
    (addressResponse host ourIp id).encode.length = host.bytes.length + 34 := by
  rw [addressResponse_encode, List.length_append, dnsHeader_length]
  simp only [List.length_append, List.length_cons, List.length_nil, leBytes_length]
  omega

theorem addressResponse_decode (host : Label) (ourIp : W) (id : BitVec 16) :
    DnsMessage.decode (addressResponse host ourIp id).encode
      = some (addressResponse host ourIp id) :=
  decode_encode {
    questions := Nat.two_pow_pos 16
    answers := Nat.one_lt_two_pow (by decide)
    authority := Nat.two_pow_pos 16
    additional := Nat.two_pow_pos 16 }

/-! ## The question -/

theorem qtype_bytes (t : BitVec 16) : UInt8.ofNat (t.toNat / 256) = 0 ∧
    (UInt8.ofNat t.toNat = 1 ∨ UInt8.ofNat t.toNat = 255) ↔ t = 1 ∨ t = 255 := by
  have ht := t.isLt
  simp only [← UInt8.toNat_inj, ← BitVec.toNat_inj, high_toNat, low_toNat]
  show t.toNat / 256 = 0 ∧ (t.toNat % 256 = 1 ∨ t.toNat % 256 = 255) ↔ t.toNat = 1 ∨ t.toNat = 255
  omega

theorem qclass_bytes (c : BitVec 16) :
    UInt8.ofNat (c.toNat / 256) &&& 0x7F = 0 ∧ UInt8.ofNat c.toNat = 1 ↔ c &&& 0x7FFF = 1 := by
  have hc := c.isLt
  have hmask : (c &&& 0x7FFF).toNat = c.toNat % 2 ^ 15 := by
    rw [BitVec.toNat_and]
    exact Nat.and_two_pow_sub_one_eq_mod _ 15
  rw [and_7F_eq_zero, ← UInt8.toNat_inj, ← BitVec.toNat_inj, high_toNat, low_toNat, hmask]
  show c.toNat / 256 % 128 = 0 ∧ c.toNat % 256 = 1 ↔ c.toNat % 32768 = 1
  omega

section
variable {mem : Nat → Option Byte} {x19 w20 p : Nat}

theorem stands_netWord {v : BitVec 16} {rest : List Byte} (h : Stands mem p (netWord v ++ rest)) :
    mem p = some (UInt8.ofNat (v.toNat / 256)) ∧ mem (p + 1) = some (UInt8.ofNat v.toNat) ∧
      Stands mem (p + 2) rest :=
  ⟨h.left.head, h.left.tail.head, h.right⟩

theorem mdnsQuestion_eq (host : Label) (ourIp : W) {id t c : BitVec 16} {ls : List Label}
    {more rest : List Byte} (hid : Stands mem x19 (netWord id ++ more))
    (h : Stands mem (x19 + 12) (labelBytes ls ++ 0 :: (netWord t ++ (netWord c ++ rest))))
    (hend : 12 + (labelBytes ls ++ 0 :: (netWord t ++ (netWord c ++ rest))).length = w20) :
    mdnsQuestion mem host.bytes ourIp x19 w20 (12 + (labelBytes ls).length)
      = some (if AsksAddress host ⟨⟨ls, none⟩, t, c⟩ then
          ((addressResponse host ourIp id).encode, host.bytes.length + 34) else mdnsDrop) := by
  have htail : Stands mem (x19 + (12 + (labelBytes ls).length + 1))
      (netWord t ++ (netWord c ++ rest)) := by
    have htail := h.right.tail
    rwa [Nat.add_assoc, Nat.add_assoc, ← Nat.add_assoc 12] at htail
  obtain ⟨ht1, ht2, hclass⟩ := stands_netWord htail
  obtain ⟨hc1, hc2, -⟩ := stands_netWord hclass
  rw [List.length_append, List.length_cons, List.length_append, List.length_append, netWord_length,
    netWord_length] at hend
  -- a drop, for a question that is not for us
  have hdrop : ¬ AsksAddress host ⟨⟨ls, none⟩, t, c⟩ → some mdnsDrop
      = some (if AsksAddress host ⟨⟨ls, none⟩, t, c⟩ then
          ((addressResponse host ourIp id).encode, host.bytes.length + 34) else mdnsDrop) :=
    fun hnot => by rw [if_neg hnot]
  rw [mdnsQuestion, if_neg (by omega), ht1, Option.bind_some]
  rw [Nat.add_assoc] at ht2 hc1
  rw [Nat.add_assoc, Nat.add_assoc] at hc2
  rw [ht2, Option.bind_some]
  by_cases htype : t = 1 ∨ t = 255
  swap
  · rw [← hdrop fun h => htype h.qtype]
    by_cases hhigh : UInt8.ofNat (t.toNat / 256) = 0
    · have hlow : ¬ (UInt8.ofNat t.toNat = 1 ∨ UInt8.ofNat t.toNat = 255) := fun hlow =>
        htype ((qtype_bytes t).mp ⟨hhigh, hlow⟩)
      rw [if_neg (fun hne => hne hhigh), if_pos (not_or.mp hlow)]
    · rw [if_pos hhigh]
  obtain ⟨hhigh, hlow⟩ := (qtype_bytes t).mpr htype
  rw [if_neg (fun hne => hne hhigh), if_neg (fun hne => not_or.mpr hne hlow), hc1,
    Option.bind_some, hc2, Option.bind_some]
  by_cases hclass : c &&& 0x7FFF = 1
  swap
  · rw [← hdrop fun h => hclass h.qclass]
    by_cases hhigh : UInt8.ofNat (c.toNat / 256) &&& 0x7F = 0
    · have hlow : UInt8.ofNat c.toNat ≠ 1 := fun hlow => hclass ((qclass_bytes c).mp ⟨hhigh, hlow⟩)
      rw [if_neg (fun hne => hne hhigh), if_pos hlow]
    · rw [if_pos hhigh]
  obtain ⟨hhigh, hlow⟩ := (qclass_bytes c).mpr hclass
  rw [if_neg (fun hne => hne hhigh), if_neg (fun hne => hne hlow), qnameEqHostnameLocal_eq h.left,
    Option.bind_some]
  by_cases hname : (labelBytes ls).map foldCase = labelBytes [host.fold, localLabel]
  swap
  · rw [← hdrop fun h => hname (isOurName_iff.mp h.name), decide_eq_false hname]
    rfl
  have hasks : AsksAddress host ⟨⟨ls, none⟩, t, c⟩ := ⟨isOurName_iff.mpr hname, htype, hclass⟩
  obtain ⟨hid0, hid1, -⟩ := stands_netWord hid
  rw [decide_eq_true hname, if_pos hasks]
  show (if _ = 0 then _ else _) = _
  rw [mdnsBuildAnnouncePayload_length, if_neg (Nat.succ_ne_zero _), hid0, Option.bind_some, hid1,
    Option.map_some, mdnsBuildAnnouncePayload_eq]

theorem mdnsQuestion_short (host : Label) (ourIp : W) {ls : List Label} {rest : List Byte}
    (hend : 12 + (labelBytes ls ++ 0 :: rest).length = w20) (hshort : rest.length < 4) :
    mdnsQuestion mem host.bytes ourIp x19 w20 (12 + (labelBytes ls).length) = some mdnsDrop := by
  rw [List.length_append, List.length_cons] at hend
  exact if_pos (by omega)

end

/-! ## The whole message -/

theorem qdcount_bytes (qd : BitVec 16) :
    UInt8.ofNat (qd.toNat / 256) = 0 ∧ UInt8.ofNat qd.toNat = 1 ↔ qd = 1 := by
  have hqd := qd.isLt
  simp only [← UInt8.toNat_inj, ← BitVec.toNat_inj, high_toNat, low_toNat]
  show qd.toNat / 256 = 0 ∧ qd.toNat % 256 = 1 ↔ qd.toNat = 1
  omega

theorem plainQuestion_encode (ls : List Label) (t c : BitVec 16) (rest : List Byte) :
    (DnsQuestion.mk ⟨ls, none⟩ t c).encode ++ rest
      = labelBytes ls ++ 0 :: (netWord t ++ (netWord c ++ rest)) := by
  rw [DnsQuestion.encode, DnsName.encode]
  show labelBytes ls ++ [0] ++ netWord t ++ netWord c ++ rest = _
  simp only [List.append_assoc, List.cons_append, List.nil_append]

section
variable {mem : Nat → Option Byte} {x0 : Nat} {id flags qd an ns ar : BitVec 16}
  {body : List Byte} (host : Label) (ourIp : W)

omit host ourIp in
theorem stands_dnsHeader (h : Stands mem x0 (dnsHeader id flags qd an ns ar ++ body)) :
    (∃ more, Stands mem x0 (netWord id ++ more)) ∧ Stands mem (x0 + 12) body := by
  refine ⟨⟨netWord flags ++ (netWord qd ++ (netWord an ++ (netWord ns ++ (netWord ar ++ body)))),
    ?_⟩, h.right⟩
  rw [dnsHeader] at h
  simpa only [List.append_assoc] using h

theorem mdnsBuildResponse_header
    (h : Stands mem x0 (dnsHeader id flags qd an ns ar ++ body))
    (hlen : 12 + body.length < 2 ^ 31) :
    mdnsBuildResponse mem host.bytes ourIp x0 (12 + body.length) =
      if flags.msb = false ∧ qd = 1 then
        (labelLoop mem x0 (12 + body.length) (12 + body.length) 12).bind fun
          | .root x24 => mdnsQuestion mem host.bytes ourIp x0 (12 + body.length) x24
          | _ => some mdnsDrop
      else some mdnsDrop := by
  have hin : ∀ {k}, k < 12 → k < (dnsHeader id flags qd an ns ar ++ body).length := by
    intro k hk
    rw [List.length_append, dnsHeader_length]
    omega
  have hflag : mem (x0 + 2) = some (UInt8.ofNat (flags.toNat / 256)) := h 2 (hin (by decide))
  have hqd1 : mem (x0 + 4) = some (UInt8.ofNat (qd.toNat / 256)) := h 4 (hin (by decide))
  have hqd2 : mem (x0 + 5) = some (UInt8.ofNat qd.toNat) := h 5 (hin (by decide))
  rw [mdnsBuildResponse, signedLength hlen, if_neg (by omega), hflag, Option.bind_some]
  by_cases hquery : flags.msb = false
  swap
  · have hnot : ¬ (flags.msb = false ∧ qd = 1) := fun hboth => hquery hboth.1
    rw [if_neg hnot, if_pos (fun hzero => hquery ((response_flag flags).mp hzero))]
  rw [if_neg (fun hne => hne ((response_flag flags).mpr hquery)), hqd1, Option.bind_some]
  by_cases hone : qd = 1
  swap
  · have hnot : ¬ (flags.msb = false ∧ qd = 1) := fun hboth => hone hboth.2
    rw [if_neg hnot]
    by_cases hhigh : UInt8.ofNat (qd.toNat / 256) = 0
    · have hlow : UInt8.ofNat qd.toNat ≠ 1 := fun hlow => hone ((qdcount_bytes qd).mp ⟨hhigh, hlow⟩)
      rw [if_neg (fun hne => hne hhigh), hqd2, Option.bind_some, if_pos hlow]
    · rw [if_pos hhigh]
  obtain ⟨hhigh, hlow⟩ := (qdcount_bytes qd).mpr hone
  rw [if_neg (fun hne => hne hhigh), hqd2, Option.bind_some, if_neg (fun hne => hne hlow),
    if_pos ⟨hquery, hone⟩]

end

theorem mdnsBuildResponse_answers {host : Label} {ourIp : W} {x0 : Nat} {payload : List Byte}
    {id : BitVec 16} (hlen : payload.length < 2 ^ 31) (hasks : AsksFor host id payload) :
    mdnsBuildResponse (region x0 payload) host.bytes ourIp x0 payload.length
      = some ((addressResponse host ourIp id).encode, host.bytes.length + 34) := by
  obtain ⟨flags, an, ns, ar, q, rest, rfl, hquery, hq⟩ := hasks
  obtain ⟨⟨ls, pointer⟩, t, c⟩ := q
  obtain rfl : pointer = none := hq.name.1
  rw [plainQuestion_encode] at hlen ⊢
  rw [List.length_append, dnsHeader_length] at hlen ⊢
  have h := stands_region x0 (dnsHeader id flags 1 an ns ar ++
    (labelBytes ls ++ 0 :: (netWord t ++ (netWord c ++ rest))))
  obtain ⟨⟨more, hid⟩, hbody⟩ := stands_dnsHeader h
  rw [mdnsBuildResponse_header host ourIp h hlen, if_pos ⟨hquery, rfl⟩,
    labelLoop_root hbody rfl (Nat.le_add_left _ _), Option.bind_some]
  dsimp only
  rw [mdnsQuestion_eq host ourIp hid hbody rfl, if_pos hq]

theorem mdnsBuildResponse_total (host : Label) (ourIp : W) (x0 : Nat) {payload : List Byte}
    (hlen : payload.length < 2 ^ 31) :
    mdnsBuildResponse (region x0 payload) host.bytes ourIp x0 payload.length = some mdnsDrop ∨
      ∃ id, AsksFor host id payload := by
  by_cases hshort : payload.length < 12
  · refine .inl ?_
    rw [mdnsBuildResponse, signedLength hlen, if_pos (by omega)]
  obtain ⟨id, flags, qd, an, ns, ar, hheader⟩ :=
    exists_dnsHeader (List.length_take_of_le (Nat.le_of_not_lt hshort))
  obtain ⟨body, rfl⟩ : ∃ body, payload = dnsHeader id flags qd an ns ar ++ body := by
    refine ⟨payload.drop 12, ?_⟩
    rw [hheader, List.take_append_drop]
  rw [List.length_append, dnsHeader_length] at hlen ⊢
  have h := stands_region x0 (dnsHeader id flags qd an ns ar ++ body)
  rw [mdnsBuildResponse_header host ourIp h hlen]
  by_cases hquery : flags.msb = false ∧ qd = 1
  swap
  · exact .inl (if_neg hquery)
  obtain ⟨hflag, rfl⟩ := hquery
  rw [if_pos ⟨hflag, rfl⟩]
  obtain ⟨⟨more, hid⟩, hbody⟩ := stands_dnsHeader h
  obtain ⟨stop, hloop, hroot⟩ := labelLoop_spec hbody rfl (Nat.le_add_left _ 12)
  rw [hloop, Option.bind_some]
  cases stop with
  | past => exact .inl rfl
  | top w => exact .inl rfl
  | long => exact .inl rfl
  | root w =>
      obtain ⟨ls, rest, rfl⟩ := hroot w rfl
      have hw := labelLoop_root hbody rfl (Nat.le_add_left _ 12)
      rw [hloop] at hw
      cases hw
      dsimp only
      by_cases hfew : rest.length < 4
      · exact .inl (mdnsQuestion_short host ourIp rfl hfew)
      obtain ⟨t, ht⟩ := exists_netWord (List.length_take_of_le (by omega : 2 ≤ rest.length))
      obtain ⟨c, hc⟩ := exists_netWord (List.length_take_of_le
        (by rw [List.length_drop]; omega : 2 ≤ (rest.drop 2).length))
      obtain ⟨rest', rfl⟩ : ∃ rest', rest = netWord t ++ (netWord c ++ rest') := by
        refine ⟨(rest.drop 2).drop 2, ?_⟩
        rw [hc, List.take_append_drop, ht, List.take_append_drop]
      rw [mdnsQuestion_eq host ourIp hid hbody rfl]
      by_cases hasks : AsksAddress host ⟨⟨ls, none⟩, t, c⟩
      · refine .inr ⟨id, flags, an, ns, ar, _, rest', ?_, hflag, hasks⟩
        rw [plainQuestion_encode]
      · exact .inl (by rw [if_neg hasks])

/-! ## Probes -/

theorem mdnsBuildProbePayload_length (host : Label) :
    (mdnsBuildProbePayload host.bytes).1.length = (mdnsBuildProbePayload host.bytes).2 := by
  rw [mdnsBuildProbePayload_eq, List.length_append, dnsHeader_length, probeQuestion,
    DnsQuestion.encode, ourName_encode]
  simp only [List.length_append, List.length_cons, List.length_nil, netWord_length]
  omega

theorem asksFor_probe (host host' : Label) :
    (∃ id, AsksFor host id (mdnsBuildProbePayload host'.bytes).1) ↔
      host'.bytes.map foldCase = host.bytes.map foldCase := by
  rw [mdnsBuildProbePayload_eq]
  constructor
  · rintro ⟨id, flags, an, ns, ar, q, rest, hpayload, -, hq⟩
    have hbody := (List.append_inj hpayload rfl).2
    have hdecode := decodeQuestion_encode q rest
    have hprobe := decodeQuestion_encode (probeQuestion host') []
    rw [List.append_nil, hbody, hdecode, Option.some.injEq, Prod.mk.injEq] at hprobe
    have hname := hq.name.2
    rw [hprobe.1] at hname
    exact congrArg Label.bytes (List.cons.inj hname).1
  · intro hcase
    refine ⟨0, 0, 0, 0, 0, probeQuestion host', [], ?_, by decide, ?_⟩
    · rw [List.append_nil]
    · have hfold : host'.fold = host.fold := Label.ext hcase
      have hname : [host', localLabel].map Label.fold = [host.fold, localLabel] := by
        rw [List.map_cons, List.map_singleton, localLabel_fold, hfold]
      have hclass : (1 : BitVec 16) &&& 0x7FFF = 1 := by decide
      exact ⟨⟨rfl, hname⟩, .inr rfl, hclass⟩

/-- **The responder answers its own name**: `mdns_build_response` ends on every payload, reads
nothing but the payload, and responds exactly to a query for our name, with our address under the
identification of the query; the probe of a peer is answered exactly when its name is ours. -/
theorem mdns_answers_own_name (host : Label) (ourIp : W) (x0 : Nat) (payload : List Byte)
    (hlen : payload.length < 2 ^ 31) :
    (∃ r w0, mdnsBuildResponse (region x0 payload) host.bytes ourIp x0 payload.length
        = some (r, w0) ∧ w0 = r.length ∧ (w0 ≠ 0 ↔ ∃ id, AsksFor host id payload) ∧
      ∀ id, AsksFor host id payload →
        DnsMessage.decode r = some (addressResponse host ourIp id)) ∧
    ∀ host' : Label, ∃ r w0,
      mdnsBuildResponse (region x0 (mdnsBuildProbePayload host'.bytes).1) host.bytes ourIp x0
        (mdnsBuildProbePayload host'.bytes).2 = some (r, w0) ∧
      (w0 ≠ 0 ↔ host'.bytes.map foldCase = host.bytes.map foldCase) := by
  -- a response and its length, for any payload
  have hall : ∀ {payload : List Byte}, payload.length < 2 ^ 31 → ∃ r w0,
      mdnsBuildResponse (region x0 payload) host.bytes ourIp x0 payload.length = some (r, w0) ∧
      w0 = r.length ∧ (w0 ≠ 0 ↔ ∃ id, AsksFor host id payload) ∧
      ∀ id, AsksFor host id payload →
        DnsMessage.decode r = some (addressResponse host ourIp id) := by
    intro payload hlen
    have hanswer : ∀ id, AsksFor host id payload → _ := fun id hasks =>
      @mdnsBuildResponse_answers host ourIp x0 _ _ hlen hasks
    obtain hdrop | ⟨id, hasks⟩ := mdnsBuildResponse_total host ourIp x0 hlen
    · have hnone : ∀ id, ¬ AsksFor host id payload := by
        intro id hasks
        have hlength := congrArg (fun r => (Option.get! r).2) (hdrop.symm.trans (hanswer id hasks))
        exact absurd hlength (Nat.succ_ne_zero _).symm
      exact ⟨[], 0, hdrop, rfl, ⟨fun h => absurd rfl h, fun ⟨id, h⟩ => absurd h (hnone id)⟩,
        fun id h => absurd h (hnone id)⟩
    · refine ⟨_, _, hanswer id hasks, (addressResponse_length host ourIp id).symm,
        ⟨fun _ => ⟨id, hasks⟩, fun _ => Nat.succ_ne_zero _⟩, fun id' hasks' => ?_⟩
      have hsame := (hanswer id hasks).symm.trans (hanswer id' hasks')
      rw [(Prod.mk.inj (Option.some.inj hsame)).1]
      exact addressResponse_decode host ourIp id'
  refine ⟨hall hlen, fun host' => ?_⟩
  have hprobe := mdnsBuildProbePayload_length host'
  have hsize : (mdnsBuildProbePayload host'.bytes).1.length < 2 ^ 31 := by
    have hshort := host'.short
    rw [hprobe, mdnsBuildProbePayload_eq]
    exact Nat.lt_of_le_of_lt (Nat.add_le_add_right hshort 24) (by decide)
  obtain ⟨r, w0, hcall, -, hiff, -⟩ := hall hsize
  rw [hprobe] at hcall
  exact ⟨r, w0, hcall, hiff.trans (asksFor_probe host host')⟩

def demoHost : Label := ⟨[0x77, 0x73, 0x70, 0x69, 0x35], by decide, by decide⟩

/-- `dig WsPi5.local`, with the identification `0x1234`. -/
def demoQuery : List Byte :=
  [0x12, 0x34, 1, 0, 0, 1, 0, 0, 0, 0, 0, 0, 5, 0x57, 0x73, 0x50, 0x69, 0x35,
    5, 0x6C, 0x6F, 0x63, 0x61, 0x6C, 0, 0, 1, 0, 1]

theorem demoQuery_asks : AsksFor demoHost 0x1234 demoQuery :=
  ⟨0x0100, 0, 0, 0, ⟨.plain [⟨[0x57, 0x73, 0x50, 0x69, 0x35], by decide, by decide⟩, localLabel],
    1, 1⟩, [], by decide, by decide, by decide⟩

theorem mdns_answers_own_name_demo : ∃ r,
    mdnsBuildResponse (region 0x1000 demoQuery) demoHost.bytes 0x3201A8C0 0x1000 29
      = some (r, r.length) ∧ r.length ≠ 0 ∧
    DnsMessage.decode r = some (addressResponse demoHost 0x3201A8C0 0x1234) := by
  obtain ⟨⟨r, w0, hcall, rfl, hiff, hdecode⟩, -⟩ :=
    mdns_answers_own_name demoHost 0x3201A8C0 0x1000 demoQuery (by decide)
  exact ⟨r, hcall, hiff.mpr ⟨_, demoQuery_asks⟩, hdecode _ demoQuery_asks⟩

end WsPi5
