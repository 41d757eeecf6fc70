/-
# `Lib.Dns` — names, questions and records of the Domain Name System on the wire

A name is a sequence of labels of 1 to 63 bytes, each behind its length; it ends at the root, a
zero, or with a pointer to a name elsewhere in the message, two bytes whose top bits are set.

    question   name, type, class
    record     name, type, class, time to live, length, data
    message    header of 12 bytes, questions, answers, authority, additional

`encode` writes them; `decode` reads a message and has no result if something is left behind it.
Letters are compared without case (`foldCase`); the length bytes are below the letters, so that
folding a name as it stands on the wire folds its labels.

**Proved here**

    the labels can be told from their bytes           (`labelBytes_injective`)
    folding the bytes folds the labels                (`labelBytes_fold`)
    a name, a question, a record is decoded,
      whatever follows                                (`decodeName_encode` and its like)
    a message is decoded                              (`decode_encode`)
-/
import WsPi5.Lib.Mem

namespace Lib

/-! ## Network order -/

/-- `v` in `k` bytes, high byte first. -/
def netBytes (k v : Nat) : List UInt8 := (leBytes k v).reverse

def netNat (bs : List UInt8) : Nat := leNat bs.reverse

@[simp] theorem netBytes_length (k v : Nat) : (netBytes k v).length = k := by
  rw [netBytes, List.length_reverse, leBytes_length]

theorem netNat_netBytes (k v : Nat) : netNat (netBytes k v) = v % 256 ^ k := by
  rw [netNat, netBytes, List.reverse_reverse, leNat_leBytes]

theorem leBytes_leNat (bs : List UInt8) : leBytes bs.length (leNat bs) = bs := by
  induction bs with
  | nil => rfl
  | cons b bs ih =>
      have hlow : UInt8.ofNat (b.toNat + 256 * leNat bs) = b := by
        apply UInt8.toNat_inj.mp
        have hb := b.toNat_lt
        rw [UInt8.toNat_ofNat']
        omega
      have hhigh : (b.toNat + 256 * leNat bs) / 256 = leNat bs := by
        have hb := b.toNat_lt
        omega
      rw [List.length_cons, leNat, leBytes, hlow, hhigh, ih]

theorem netBytes_netNat (bs : List UInt8) : netBytes bs.length (netNat bs) = bs := by
  have h := leBytes_leNat bs.reverse
  rw [List.length_reverse] at h
  rw [netBytes, netNat, h, List.reverse_reverse]

theorem netNat_lt (bs : List UInt8) : netNat bs < 256 ^ bs.length := by
  have h := leNat_lt bs.reverse
  rwa [List.length_reverse] at h

/-! ## Masks -/

theorem and_high_eq_zero {n i m : Nat} (h : n < 2 ^ (i + m)) :
    n &&& (2 ^ m - 1) * 2 ^ i = 0 ↔ n < 2 ^ i := by
  have hpos : 0 < 2 ^ i := Nat.two_pow_pos i
  have hquot : (n &&& (2 ^ m - 1) * 2 ^ i) / 2 ^ i = n / 2 ^ i := by
    rw [Nat.and_div_two_pow, Nat.mul_div_cancel _ hpos, Nat.and_two_pow_sub_one_eq_mod]
    apply Nat.mod_eq_of_lt
    rw [Nat.div_lt_iff_lt_mul hpos, Nat.mul_comm, ← Nat.pow_add]
    exact h
  have hrem : (n &&& (2 ^ m - 1) * 2 ^ i) % 2 ^ i = 0 := by
    rw [Nat.and_mod_two_pow, Nat.mul_mod_left, Nat.and_zero]
  have hparts := Nat.div_add_mod (n &&& (2 ^ m - 1) * 2 ^ i) (2 ^ i)
  rw [hquot, hrem, Nat.add_zero] at hparts
  rw [← hparts, Nat.mul_eq_zero, Nat.div_eq_zero_iff]
  omega

theorem byte_and_eq_zero (b m : UInt8) : b &&& m = 0 ↔ b.toNat &&& m.toNat = 0 := by
  rw [← UInt8.toNat_and, ← UInt8.toNat_inj]
  exact Iff.rfl

theorem and_C0_eq_zero (b : UInt8) : b &&& 0xC0 = 0 ↔ b.toNat < 64 :=
  (byte_and_eq_zero b 0xC0).trans (@and_high_eq_zero _ 6 2 b.toNat_lt)

theorem and_80_eq_zero (b : UInt8) : b &&& 0x80 = 0 ↔ b.toNat < 128 :=
  (byte_and_eq_zero b 0x80).trans (@and_high_eq_zero _ 7 1 b.toNat_lt)

theorem and_7F_eq_zero (b : UInt8) : b &&& 0x7F = 0 ↔ b.toNat % 128 = 0 := by
  have hmod : b.toNat &&& 127 = b.toNat % 128 := Nat.and_two_pow_sub_one_eq_mod _ 7
  rw [byte_and_eq_zero, ← hmod]
  exact Iff.rfl

/-! ## Labels -/

/-- A label. -/
structure Label where
  bytes : List UInt8
  nonempty : 0 < bytes.length
  short : bytes.length ≤ 63
  deriving DecidableEq

def Label.encode (l : Label) : List UInt8 := UInt8.ofNat l.bytes.length :: l.bytes

/-- The labels of a name as they stand on the wire. -/
def labelBytes (ls : List Label) : List UInt8 := ls.flatMap Label.encode

/-- An upper-case letter in lower case, and any other byte as it is. -/
def foldCase (b : UInt8) : UInt8 := if 0x41 ≤ b ∧ b ≤ 0x5A then b + 0x20 else b

def Label.fold (l : Label) : Label where
  bytes := l.bytes.map foldCase
  nonempty := by
    rw [List.length_map]
    exact l.nonempty
  short := by
    rw [List.length_map]
    exact l.short

theorem Label.ext {l l' : Label} (h : l.bytes = l'.bytes) : l = l' := by
  cases l
  cases l'
  cases h
  rfl

theorem Label.length_toNat (l : Label) : (UInt8.ofNat l.bytes.length).toNat = l.bytes.length := by
  have hshort := l.short
  rw [UInt8.toNat_ofNat']
  omega

theorem Label.length_ne_zero (l : Label) : UInt8.ofNat l.bytes.length ≠ 0 := by
  intro h
  have hlen := l.length_toNat
  rw [h] at hlen
  exact absurd hlen.symm (Nat.ne_of_gt l.nonempty)

theorem labelBytes_cons (l : Label) (ls : List Label) :
    labelBytes (l :: ls) = UInt8.ofNat l.bytes.length :: (l.bytes ++ labelBytes ls) := rfl

theorem labelBytes_injective {ls ls' : List Label} (h : labelBytes ls = labelBytes ls') :
    ls = ls' := by
  induction ls generalizing ls' with
  | nil =>
      cases ls' with
      | nil => rfl
      | cons l' ls' =>
          rw [labelBytes_cons] at h
          cases h
  | cons l ls ih =>
      cases ls' with
      | nil =>
          rw [labelBytes_cons] at h
          cases h
      | cons l' ls' =>
          rw [labelBytes_cons, labelBytes_cons, List.cons.injEq] at h
          have hlen : l.bytes.length = l'.bytes.length := by
            rw [← l.length_toNat, h.1, l'.length_toNat]
          obtain ⟨hbytes, hrest⟩ := List.append_inj h.2 hlen
          rw [Label.ext hbytes, ih hrest]

theorem foldCase_of_lt {b : UInt8} (h : b < 0x41) : foldCase b = b :=
  if_neg fun hup => absurd hup.1 (UInt8.not_le.mpr h)

theorem eq_of_foldCase {b c : UInt8} (hc : c < 0x41) (h : foldCase b = c) : b = c := by
  rw [foldCase] at h
  split at h
  next hup =>
    have hlo : 0x41 ≤ b.toNat := hup.1
    have hhi : b.toNat ≤ 0x5A := hup.2
    have hc' : c.toNat < 0x41 := hc
    rw [← h, UInt8.toNat_add] at hc'
    have hnum : (0x20 : UInt8).toNat = 0x20 := rfl
    omega
  next => exact h

theorem Label.length_lt (l : Label) : UInt8.ofNat l.bytes.length < 0x41 := by
  have hshort := l.short
  rw [UInt8.lt_iff_toNat_lt, l.length_toNat]
  exact Nat.lt_of_le_of_lt hshort (by decide)

theorem Label.length_top (l : Label) : UInt8.ofNat l.bytes.length &&& 0xC0 = 0 := by
  have hshort := l.short
  rw [and_C0_eq_zero, l.length_toNat]
  omega

theorem labelBytes_fold (ls : List Label) :
    (labelBytes ls).map foldCase = labelBytes (ls.map Label.fold) := by
  induction ls with
  | nil => rfl
  | cons l ls ih =>
      have hlen : (l.fold).bytes.length = l.bytes.length := List.length_map foldCase
      rw [List.map_cons, labelBytes_cons, labelBytes_cons, List.map_cons, List.map_append, ih, hlen,
        foldCase_of_lt l.length_lt]
      rfl

/-! ## Names -/

/-- A name: labels up to the root, or up to a pointer. -/
structure DnsName where
  labels : List Label
  pointer : Option (Fin 16384)
  deriving DecidableEq

def DnsName.plain (ls : List Label) : DnsName := ⟨ls, none⟩

def DnsName.ending (n : DnsName) : List UInt8 :=
  match n.pointer with
  | none => [0]
  | some p => netBytes 2 (0xC000 + p.val)

def DnsName.encode (n : DnsName) : List UInt8 := labelBytes n.labels ++ n.ending

theorem DnsName.encode_root (ls : List Label) (rest : List UInt8) :
    (DnsName.mk ls none).encode ++ rest = labelBytes ls ++ 0 :: rest :=
  List.append_assoc ..

theorem DnsName.encode_pointer (ls : List Label) (p : Fin 16384) (rest : List UInt8) :
    ∃ hi lo, hi &&& 0xC0 ≠ 0 ∧
      (DnsName.mk ls (some p)).encode ++ rest = labelBytes ls ++ hi :: lo :: rest := by
  have hp := p.isLt
  refine ⟨UInt8.ofNat ((0xC000 + p.val) / 256), UInt8.ofNat (0xC000 + p.val), ?_,
    List.append_assoc ..⟩
  rw [Ne, and_C0_eq_zero, UInt8.toNat_ofNat']
  omega

/-- At most `k` labels and the end of the name. -/
def decodeNameTurns : Nat → List UInt8 → Option (DnsName × List UInt8)
  | 0, _ => none
  | _ + 1, [] => none
  | k + 1, b :: bs =>
      if b = 0 then some (⟨[], none⟩, bs)
      else if 0xC0 ≤ b.toNat then
        match bs with
        | [] => none
        | c :: rest =>
            some (⟨[], some ⟨netNat [b, c] % 16384, Nat.mod_lt _ (by decide)⟩⟩, rest)
      else if h : 0 < b.toNat ∧ b.toNat ≤ 63 ∧ b.toNat ≤ bs.length then
        have hlen : (bs.take b.toNat).length = b.toNat := List.length_take_of_le h.2.2
        (decodeNameTurns k (bs.drop b.toNat)).map fun r =>
          ({ r.1 with labels := ⟨bs.take b.toNat, by omega, by omega⟩ :: r.1.labels }, r.2)
      else none

/-- A name takes a byte for each label, and one for its end. -/
def decodeName (bs : List UInt8) : Option (DnsName × List UInt8) := decodeNameTurns bs.length bs

theorem decodeNameTurns_encode {k : Nat} {rest : List UInt8} : ∀ {ls : List Label}
    {p : Option (Fin 16384)}, ls.length < k →
    decodeNameTurns k (DnsName.encode ⟨ls, p⟩ ++ rest) = some (⟨ls, p⟩, rest) := by
  induction k with
  | zero => exact fun h => absurd h (Nat.not_lt_zero _)
  | succ k ih =>
      intro ls p hk
      cases ls with
      | nil =>
          cases p with
          | none => rfl
          | some p =>
              have hp := p.isLt
              have hbytes : netBytes 2 (0xC000 + p.val)
                  = [UInt8.ofNat ((0xC000 + p.val) / 256), UInt8.ofNat (0xC000 + p.val)] := rfl
              have hhigh : (UInt8.ofNat ((0xC000 + p.val) / 256)).toNat
                  = (0xC000 + p.val) / 256 := by
                rw [UInt8.toNat_ofNat']
                omega
              have hvalue : netNat [UInt8.ofNat ((0xC000 + p.val) / 256),
                  UInt8.ofNat (0xC000 + p.val)] % 16384 = p.val := by
                rw [← hbytes, netNat_netBytes]
                omega
              have hne : UInt8.ofNat ((0xC000 + p.val) / 256) ≠ 0 := by
                intro h0
                have hzero : (0xC000 + p.val) / 256 = 0 := by
                  rw [← hhigh, h0]
                  rfl
                omega
              show decodeNameTurns (k + 1) (netBytes 2 (0xC000 + p.val) ++ rest) = _
              rw [hbytes]
              show (if UInt8.ofNat ((0xC000 + p.val) / 256) = 0 then _ else _) = _
              rw [if_neg hne, if_pos (by rw [hhigh]; omega)]
              show some ((⟨[], some ⟨netNat [UInt8.ofNat ((0xC000 + p.val) / 256),
                  UInt8.ofNat (0xC000 + p.val)] % 16384, _⟩⟩ : DnsName), rest) = _
              simp only [hvalue]
      | cons l ls =>
          have hpos := l.nonempty
          have hshort := l.short
          have hsplit : DnsName.encode ⟨l :: ls, p⟩ ++ rest
              = UInt8.ofNat l.bytes.length :: (l.bytes ++ (DnsName.encode ⟨ls, p⟩ ++ rest)) := by
            simp [DnsName.encode, labelBytes_cons, DnsName.ending]
          have hfits : 0 < (UInt8.ofNat l.bytes.length).toNat ∧
              (UInt8.ofNat l.bytes.length).toNat ≤ 63 ∧ (UInt8.ofNat l.bytes.length).toNat
                ≤ (l.bytes ++ (DnsName.encode ⟨ls, p⟩ ++ rest)).length := by
            rw [l.length_toNat, List.length_append]
            omega
          rw [hsplit]
          show (if _ = 0 then _ else if _ ≤ _ then _ else dite _ _ _) = _
          rw [if_neg l.length_ne_zero, if_neg (by rw [l.length_toNat]; omega), dif_pos hfits]
          simp only [l.length_toNat, List.drop_left, List.take_left,
            ih (Nat.lt_of_succ_lt_succ hk), Option.map_some]

theorem length_le_labelBytes (ls : List Label) : ls.length ≤ (labelBytes ls).length := by
  induction ls with
  | nil => exact Nat.le_refl 0
  | cons l ls ih =>
      rw [labelBytes_cons, List.length_cons, List.length_cons, List.length_append]
      omega

theorem DnsName.ending_pos (n : DnsName) : 0 < n.ending.length := by
  rw [DnsName.ending]
  split
  · exact Nat.one_pos
  · rw [netBytes_length]
    exact Nat.two_pos

theorem decodeName_encode (n : DnsName) (rest : List UInt8) :
    decodeName (n.encode ++ rest) = some (n, rest) := by
  have hle := length_le_labelBytes n.labels
  have hend := n.ending_pos
  refine decodeNameTurns_encode ?_
  rw [DnsName.encode, List.length_append, List.length_append]
  omega

/-! ## Questions, records, messages -/

structure DnsQuestion where
  name : DnsName
  qtype : BitVec 16
  qclass : BitVec 16
  deriving DecidableEq

structure DnsRecord where
  name : DnsName
  type : BitVec 16
  rclass : BitVec 16
  ttl : BitVec 32
  data : List UInt8
  short : data.length < 2 ^ 16
  deriving DecidableEq

def netWord (v : BitVec 16) : List UInt8 := netBytes 2 v.toNat

def DnsQuestion.encode (q : DnsQuestion) : List UInt8 :=
  q.name.encode ++ netWord q.qtype ++ netWord q.qclass

/-- Type, class, time to live and the length of the data. -/
def DnsRecord.fixed (r : DnsRecord) : List UInt8 :=
  netWord r.type ++ netWord r.rclass ++ netBytes 4 r.ttl.toNat ++ netBytes 2 r.data.length

def DnsRecord.encode (r : DnsRecord) : List UInt8 := r.name.encode ++ r.fixed ++ r.data

theorem DnsQuestion.encode_append (q : DnsQuestion) (rest : List UInt8) :
    q.encode ++ rest = q.name.encode ++ (netWord q.qtype ++ (netWord q.qclass ++ rest)) := by
  rw [DnsQuestion.encode]
  simp only [List.append_assoc]

theorem DnsRecord.size_toNat (r : DnsRecord) :
    (BitVec.ofNat 16 r.data.length).toNat = r.data.length := by
  rw [BitVec.toNat_ofNat, Nat.mod_eq_of_lt r.short]

theorem DnsRecord.encode_append (r : DnsRecord) (rest : List UInt8) :
    r.encode ++ rest = r.name.encode ++ (netWord r.type ++ (netWord r.rclass ++
      (netBytes 4 r.ttl.toNat ++ (netWord (.ofNat 16 r.data.length) ++ (r.data ++ rest))))) := by
  have hsize : netBytes 2 r.data.length = netWord (.ofNat 16 r.data.length) := by
    rw [netWord, r.size_toNat]
  rw [DnsRecord.encode, DnsRecord.fixed, hsize]
  simp only [List.append_assoc]

/-- The header: identification, flags, and the sizes of the four sections. -/
def dnsHeader (id flags qd an ns ar : BitVec 16) : List UInt8 :=
  netWord id ++ netWord flags ++ netWord qd ++ netWord an ++ netWord ns ++ netWord ar

theorem netWord_length (v : BitVec 16) : (netWord v).length = 2 := netBytes_length 2 v.toNat

theorem high_toNat (v : BitVec 16) : (UInt8.ofNat (v.toNat / 256)).toNat = v.toNat / 256 := by
  have hv := v.isLt
  rw [UInt8.toNat_ofNat']
  omega

theorem low_toNat (v : BitVec 16) : (UInt8.ofNat v.toNat).toNat = v.toNat % 256 :=
  UInt8.toNat_ofNat'

theorem exists_netWord {bs : List UInt8} (h : bs.length = 2) : ∃ v, netWord v = bs := by
  have hlt : netNat bs < 2 ^ 16 := by
    have hlength := netNat_lt bs
    rw [h] at hlength
    exact hlength
  refine ⟨.ofNat 16 (netNat bs), ?_⟩
  rw [netWord, BitVec.toNat_ofNat, Nat.mod_eq_of_lt hlt]
  have hback := netBytes_netNat bs
  rwa [h] at hback

theorem dnsHeader_length (id flags qd an ns ar : BitVec 16) :
    (dnsHeader id flags qd an ns ar).length = 12 := rfl

theorem exists_dnsHeader {bs : List UInt8} (h : bs.length = 12) :
    ∃ id flags qd an ns ar, dnsHeader id flags qd an ns ar = bs := by
  have hword : ∀ k, k + 2 ≤ 12 → ∃ v, netWord v = (bs.drop k).take 2 := by
    intro k hk
    refine exists_netWord ?_
    rw [List.length_take, List.length_drop, h]
    omega
  obtain ⟨id, hid⟩ := hword 0 (by decide)
  obtain ⟨flags, hflags⟩ := hword 2 (by decide)
  obtain ⟨qd, hqd⟩ := hword 4 (by decide)
  obtain ⟨an, han⟩ := hword 6 (by decide)
  obtain ⟨ns, hns⟩ := hword 8 (by decide)
  obtain ⟨ar, har⟩ := hword 10 (by decide)
  refine ⟨id, flags, qd, an, ns, ar, ?_⟩
  rw [dnsHeader, hid, hflags, hqd, han, hns, har]
  match bs, h with
  | [_, _, _, _, _, _, _, _, _, _, _, _], _ => rfl

theorem response_flag (flags : BitVec 16) :
    UInt8.ofNat (flags.toNat / 256) &&& 0x80 = 0 ↔ flags.msb = false := by
  have hv := flags.isLt
  rw [and_80_eq_zero, high_toNat, BitVec.msb_eq_decide, decide_eq_false_iff_not]
  omega

structure DnsMessage where
  id : BitVec 16
  flags : BitVec 16
  questions : List DnsQuestion
  answers : List DnsRecord
  authority : List DnsRecord
  additional : List DnsRecord
  deriving DecidableEq

def DnsMessage.encode (m : DnsMessage) : List UInt8 :=
  dnsHeader m.id m.flags (.ofNat 16 m.questions.length) (.ofNat 16 m.answers.length)
    (.ofNat 16 m.authority.length) (.ofNat 16 m.additional.length) ++
  (m.questions.flatMap DnsQuestion.encode ++ (m.answers.flatMap DnsRecord.encode ++
    (m.authority.flatMap DnsRecord.encode ++ m.additional.flatMap DnsRecord.encode)))

/-! ### Decoding -/

/-- `k` bytes from the front. -/
def takeBytes (k : Nat) (bs : List UInt8) : Option (List UInt8 × List UInt8) :=
  if k ≤ bs.length then some (bs.take k, bs.drop k) else none

def takeWord (bs : List UInt8) : Option (BitVec 16 × List UInt8) :=
  (takeBytes 2 bs).map fun r => (.ofNat 16 (netNat r.1), r.2)

def decodeQuestion (bs : List UInt8) : Option (DnsQuestion × List UInt8) :=
  (decodeName bs).bind fun (name, bs) =>
    (takeWord bs).bind fun (qtype, bs) =>
      (takeWord bs).map fun (qclass, bs) => (⟨name, qtype, qclass⟩, bs)

def decodeRecord (bs : List UInt8) : Option (DnsRecord × List UInt8) :=
  (decodeName bs).bind fun (name, bs) =>
    (takeWord bs).bind fun (type, bs) =>
      (takeWord bs).bind fun (rclass, bs) =>
        (takeBytes 4 bs).bind fun (ttl, bs) =>
          (takeWord bs).bind fun (size, bs) =>
            if h : size.toNat ≤ bs.length then
              have hlen : (bs.take size.toNat).length = size.toNat := List.length_take_of_le h
              some (⟨name, type, rclass, .ofNat 32 (netNat ttl), bs.take size.toNat, by
                rw [hlen]
                exact size.isLt⟩, bs.drop size.toNat)
            else none

/-- `k` items one behind the other. -/
def decodeMany {α : Type} (item : List UInt8 → Option (α × List UInt8)) :
    Nat → List UInt8 → Option (List α × List UInt8)
  | 0, bs => some ([], bs)
  | k + 1, bs =>
      (item bs).bind fun (x, bs) => (decodeMany item k bs).map fun (xs, bs) => (x :: xs, bs)

def DnsMessage.decode (bs : List UInt8) : Option DnsMessage :=
  (takeWord bs).bind fun (id, bs) =>
    (takeWord bs).bind fun (flags, bs) =>
      (takeWord bs).bind fun (qd, bs) =>
        (takeWord bs).bind fun (an, bs) =>
          (takeWord bs).bind fun (ns, bs) =>
            (takeWord bs).bind fun (ar, bs) =>
              (decodeMany decodeQuestion qd.toNat bs).bind fun (questions, bs) =>
                (decodeMany decodeRecord an.toNat bs).bind fun (answers, bs) =>
                  (decodeMany decodeRecord ns.toNat bs).bind fun (authority, bs) =>
                    (decodeMany decodeRecord ar.toNat bs).bind fun (additional, bs) =>
                      if bs = [] then
                        some ⟨id, flags, questions, answers, authority, additional⟩
                      else none

/-! ### What was encoded is decoded -/

theorem takeBytes_append {k : Nat} {xs : List UInt8} (h : xs.length = k) (rest : List UInt8) :
    takeBytes k (xs ++ rest) = some (xs, rest) := by
  have hle : k ≤ (xs ++ rest).length := by
    rw [List.length_append]
    omega
  rw [takeBytes, if_pos hle, ← h, List.take_left, List.drop_left]

theorem takeWord_append (v : BitVec 16) (rest : List UInt8) :
    takeWord (netWord v ++ rest) = some (v, rest) := by
  have hvalue : BitVec.ofNat 16 (netNat (netWord v)) = v := by
    apply BitVec.eq_of_toNat_eq
    rw [netWord, netNat_netBytes, BitVec.toNat_ofNat]
    have hv := v.isLt
    omega
  rw [takeWord, takeBytes_append (netWord_length v), Option.map_some, hvalue]

theorem decodeQuestion_encode (q : DnsQuestion) (rest : List UInt8) :
    decodeQuestion (q.encode ++ rest) = some (q, rest) := by
  rw [DnsQuestion.encode_append, decodeQuestion, decodeName_encode, Option.bind_some]
  dsimp only
  rw [takeWord_append, Option.bind_some]
  dsimp only
  rw [takeWord_append]
  rfl

theorem decodeRecord_encode (r : DnsRecord) (rest : List UInt8) :
    decodeRecord (r.encode ++ rest) = some (r, rest) := by
  have httl : BitVec.ofNat 32 (netNat (netBytes 4 r.ttl.toNat)) = r.ttl := by
    apply BitVec.eq_of_toNat_eq
    rw [netNat_netBytes, BitVec.toNat_ofNat]
    have hv := r.ttl.isLt
    omega
  have hfits : (BitVec.ofNat 16 r.data.length).toNat ≤ (r.data ++ rest).length := by
    rw [r.size_toNat, List.length_append]
    omega
  rw [DnsRecord.encode_append, decodeRecord, decodeName_encode, Option.bind_some]
  dsimp only
  rw [takeWord_append, Option.bind_some]
  dsimp only
  rw [takeWord_append, Option.bind_some]
  dsimp only
  rw [takeBytes_append (netBytes_length 4 _), Option.bind_some]
  dsimp only
  rw [takeWord_append, Option.bind_some]
  dsimp only
  rw [dif_pos hfits]
  simp only [r.size_toNat, List.take_left, List.drop_left, httl]

theorem decodeMany_encode {α : Type} {item : List UInt8 → Option (α × List UInt8)}
    {enc : α → List UInt8} (hitem : ∀ x rest, item (enc x ++ rest) = some (x, rest)) :
    ∀ (xs : List α) (rest : List UInt8),
      decodeMany item xs.length (xs.flatMap enc ++ rest) = some (xs, rest) := by
  intro xs
  induction xs with
  | nil => exact fun _ => rfl
  | cons x xs ih =>
      intro rest
      rw [List.flatMap_cons, List.append_assoc, List.length_cons, decodeMany, hitem,
        Option.bind_some]
      dsimp only
      rw [ih]
      rfl

/-- The sections are not too long for their counts. -/
structure DnsMessage.Counted (m : DnsMessage) : Prop where
  questions : m.questions.length < 2 ^ 16
  answers : m.answers.length < 2 ^ 16
  authority : m.authority.length < 2 ^ 16
  additional : m.additional.length < 2 ^ 16

/-- **What was encoded is decoded.** -/
theorem decode_encode {m : DnsMessage} (h : m.Counted) : DnsMessage.decode m.encode = some m := by
  have hcount : ∀ {n : Nat}, n < 2 ^ 16 → (BitVec.ofNat 16 n).toNat = n := fun hn => by
    rw [BitVec.toNat_ofNat, Nat.mod_eq_of_lt hn]
  have hlast := decodeMany_encode decodeRecord_encode m.additional []
  rw [List.append_nil] at hlast
  rw [DnsMessage.encode, dnsHeader]
  simp only [List.append_assoc]
  unfold DnsMessage.decode
  simp only [takeWord_append, Option.bind_some, hcount h.questions, hcount h.answers,
    hcount h.authority, hcount h.additional, decodeMany_encode decodeQuestion_encode,
    decodeMany_encode decodeRecord_encode, hlast, if_true]

end Lib
