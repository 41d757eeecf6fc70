/-
# `WsPi5.Http.Chunk` — the body of a dynamic route, as one chunk

`.Lhp_dynamic` has the handler's bytes encoded as one chunk, `httpChunkEncode`, and the last chunk
written behind it, `httpChunkTerminate`.  No byte of the body is an obstacle: the size says where
the body ends.  An empty body has no chunk, as a chunk of size zero would be the last one.

The size is written digit by digit, and a digit is left out if the number is below its place.

**Proved here** (`chunk_round_trip`), for every body of up to 65535 bytes: by the grammar of
`Lib.Chunked` what is written carries the body, and nothing else, and ends where it ends.  A body of
up to 1024 bytes fits the way's buffer with its chunk.
-/
import WsPi5.Http.Poll
import WsPi5.Lib.Chunked

namespace WsPi5

open Lib

def httpChunkTerminate : List Byte := ascii "0\r\n\r\n"

theorem chunkBody_eq (body : List Byte) :
    chunkBody body = httpChunkEncode body ++ httpChunkTerminate := rfl

/-! ## The size -/

/-- The digits that `http_chunk_encode` writes for the size `n`. -/
def chunkSizeDigits (n : Nat) : List Byte :=
  let nibble (n : Nat) : Byte := UInt8.ofNat (if n < 10 then 0x30 + n else 0x57 + n)
  (if 0x1000 ≤ n then [nibble (n / 0x1000 % 16)] else []) ++
  (if 0x100 ≤ n then [nibble (n / 0x100 % 16)] else []) ++
  (if 0x10 ≤ n then [nibble (n / 0x10 % 16)] else []) ++
  [nibble (n % 16)]

theorem httpChunkEncode_cons {body : List Byte} (h : body ≠ []) :
    httpChunkEncode body = chunkSizeDigits body.length ++ lineEnd ++ (body ++ lineEnd) := by
  have hlen : body.length ≠ 0 := fun h0 => h (List.eq_nil_of_length_eq_zero h0)
  unfold httpChunkEncode
  dsimp only
  rw [if_neg hlen, List.append_assoc _ body]
  rfl

theorem nibble_eq {d : Nat} (h : d < 16) :
    UInt8.ofNat (if d < 10 then 0x30 + d else 0x57 + d) = lowHexDigit d := by
  have hall : ∀ d < 16, UInt8.ofNat (if d < 10 then 0x30 + d else 0x57 + d) = lowHexDigit d := by
    decide
  exact hall d h

/-- The digits from a place on: those above it, if there are any, and its own. -/
theorem digit_at (n : Nat) {p : Nat} (hp : 0 < p) :
    lowerHex (n / p) = (if p * 16 ≤ n then lowerHex (n / (p * 16)) else []) ++
      [lowHexDigit (n / p % 16)] := by
  have hdiv : n / p / 16 = n / (p * 16) := Nat.div_div_eq_div_mul n p 16
  by_cases hle : p * 16 ≤ n
  · have hbig : 16 ≤ n / p := (Nat.le_div_iff_mul_le hp).mpr (by omega)
    rw [if_pos hle, lowerHex_step hbig, hdiv]
  · have hsmall : n / p < 16 := Nat.div_lt_of_lt_mul (by omega)
    rw [if_neg hle, lowerHex_digit hsmall, Nat.mod_eq_of_lt hsmall, List.nil_append]

theorem chunkSizeDigits_eq {n : Nat} (h : n < 0x10000) : chunkSizeDigits n = lowerHex n := by
  have hdigit : ∀ k, UInt8.ofNat (if k % 16 < 10 then 0x30 + k % 16 else 0x57 + k % 16)
      = lowHexDigit (k % 16) := fun k => nibble_eq (Nat.mod_lt k (by decide))
  have hones := digit_at n (p := 1) (by decide)
  have htens := digit_at n (p := 0x10) (by decide)
  have hhundreds := digit_at n (p := 0x100) (by decide)
  have htop : lowerHex (n / 0x1000) = [lowHexDigit (n / 0x1000 % 16)] := by
    have hlt : n / 0x1000 < 16 := Nat.div_lt_of_lt_mul h
    rw [lowerHex_digit hlt, Nat.mod_eq_of_lt hlt]
  rw [Nat.div_one] at hones
  simp only [Nat.reduceMul] at hones htens hhundreds
  rw [htop] at hhundreds
  rw [hones, htens, hhundreds]
  simp only [chunkSizeDigits, hdigit]
  -- a place above a place that is empty is empty
  by_cases h₁ : 0x10 ≤ n
  · by_cases h₂ : 0x100 ≤ n
    · by_cases h₃ : 0x1000 ≤ n
      · simp only [if_pos h₁, if_pos h₂, if_pos h₃]
      · simp only [if_pos h₁, if_pos h₂, if_neg h₃]
    · have h₃ : ¬ 0x1000 ≤ n := by omega
      simp only [if_pos h₁, if_neg h₂, if_neg h₃, List.nil_append]
  · have h₂ : ¬ 0x100 ≤ n := by omega
    have h₃ : ¬ 0x1000 ≤ n := by omega
    simp only [if_neg h₁, if_neg h₂, if_neg h₃, List.nil_append]

/-! ## The whole -/

theorem chunkExt_nil : ChunkExt [] where
  line := fun _ hb => nomatch hb
  first := fun _ hb => nomatch hb

theorem terminate_chunked : Chunked httpChunkTerminate [] := by
  have hzero : ChunkSize [0x30] 0 := chunkSize_lowerHex 0
  exact @Chunked.last _ _ [] hzero chunkExt_nil fun _ hl => nomatch hl

theorem chunkBody_size {body : List Byte} (h : body.length ≤ 65535) :
    lowerHex body.length ++ lineEnd <+: chunkBody body := by
  rw [chunkBody_eq]
  by_cases hnil : body = []
  · subst hnil
    exact ⟨lineEnd, rfl⟩
  · rw [httpChunkEncode_cons hnil, chunkSizeDigits_eq (by omega), List.append_assoc]
    exact List.prefix_append ..

theorem chunkBody_chunked {body : List Byte} (h : body.length ≤ 65535) :
    Chunked (chunkBody body) body := by
  rw [chunkBody_eq]
  by_cases hnil : body = []
  · subst hnil
    exact terminate_chunked
  · have hchunk := Chunked.chunk (chunkSize_lowerHex body.length) chunkExt_nil hnil terminate_chunked
    rw [List.append_nil, List.append_nil] at hchunk
    rw [httpChunkEncode_cons hnil, chunkSizeDigits_eq (by omega), List.append_assoc]
    exact hchunk

theorem lowerHex_length {n : Nat} (h : n ≤ 1024) : (lowerHex n).length ≤ 3 := by
  rw [lowerHex, List.length_map]
  exact (Nat.length_toDigits_le_iff (by decide) (by decide)).mpr (by omega)

theorem chunkBody_fits {body : List Byte} (h : body.length ≤ 1024) :
    (chunkBody body).length ≤ httpDynChunkSize := by
  have hsize := lowerHex_length h
  have hline : lineEnd.length = 2 := rfl
  have hlast : httpChunkTerminate.length = 5 := rfl
  rw [chunkBody_eq, List.length_append, hlast]
  by_cases hnil : body = []
  · subst hnil
    decide
  · rw [httpChunkEncode_cons hnil, chunkSizeDigits_eq (by omega)]
    simp only [List.length_append, hline]
    show _ ≤ 1088
    omega

/-- **The round trip.**  What a dynamic route puts into its buffer for a body is a chunked body
that carries it, however it is read, with nothing left over; its first line is the size in
lower-case hexadecimal without leading zeros; and up to 1024 bytes it fits. -/
theorem chunk_round_trip {body : List Byte} (h : body.length ≤ 65535) :
    Chunked (chunkBody body) body ∧
    (∀ wire rest read, chunkBody body = wire ++ rest → Chunked wire read →
      read = body ∧ rest = []) ∧
    (lowerHex body.length ++ lineEnd <+: chunkBody body ∧
      (body ≠ [] → (lowerHex body.length).head? ≠ some 0x30)) ∧
    (body.length ≤ 1024 → (chunkBody body).length ≤ httpDynChunkSize) := by
  have hwhole := chunkBody_chunked h
  refine ⟨hwhole, ?_, ⟨chunkBody_size h, ?_⟩, chunkBody_fits⟩
  · intro wire rest read heq hread
    have hsplit : chunkBody body ++ [] = wire ++ rest := by rw [List.append_nil, heq]
    obtain ⟨hbody, hrest⟩ := hwhole.unique hread hsplit
    exact ⟨hbody.symm, hrest.symm⟩
  · intro hne
    exact lowerHex_first fun h0 => hne (List.eq_nil_of_length_eq_zero h0)

/-- A body that looks like the end of a chunked body. -/
theorem chunk_round_trip_demo :
    Chunked (chunkBody (ascii "\r\n0\r\n\r\n")) (ascii "\r\n0\r\n\r\n") :=
  (@chunk_round_trip (ascii "\r\n0\r\n\r\n") (by decide)).1

end WsPi5
