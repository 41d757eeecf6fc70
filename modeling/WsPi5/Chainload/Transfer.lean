/-
# `WsPi5.Chainload.Transfer` — an image, sent as records and loaded

The host counts an offset within a 64 KiB segment.  When a chunk begins behind the end of the
segment it sends a new extended address, and sets the offset to zero:

    offset before a chunk     extended address     chunk goes to
    up to 0xFFFF              as before            segment + offset
    0x10000                   next segment         its start
    0x10001 and more          next segment         its start, where the chunk before has its end

The last row is reached where a chunk crosses the end of the segment and another follows; that
one, and all behind it, then land lower than they should, and the last bytes of the image's place
stay as they were.

Chunks and stores meet at `hexStores`, the stores that the parser makes of the host's records
(`clFeeds_data`): they are the image's chunks end to end (`hexStores_blocks`), or they do not
reach its end (`hexStores_short`).

**Proved here** (`hex_transfer_exact`): the image is loaded if and only if no chunk but the last
one crosses the end of a segment, and its length is a word.
-/
import WsPi5.Chainload.HexRecord

namespace WsPi5

open Lib

/-! ## Chunks -/

theorem hexChunks_nil {c : Nat} (hc : 1 ≤ c) : hexChunks c [] = [] := by
  have hcount : (([] : List Byte).length + c - 1) / c = 0 := by
    rw [List.length_nil]
    exact Nat.div_eq_of_lt (by omega)
  rw [hexChunks, hcount]
  rfl

theorem hexChunks_cons {c : Nat} (hc : 1 ≤ c) {xs : List Byte} (hxs : xs ≠ []) :
    hexChunks c xs = xs.take c :: hexChunks c (xs.drop c) := by
  have hpos := List.length_pos_iff.mpr hxs
  have hcount : (xs.length + c - 1) / c = ((xs.drop c).length + c - 1) / c + 1 := by
    rw [List.length_drop]
    rcases Nat.le_total c xs.length with hle | hle
    · rw [show xs.length + c - 1 = (xs.length - c + c - 1) + c by omega,
        Nat.add_div_right _ hc]
    · rw [show xs.length + c - 1 = (xs.length - 1) + c by omega, Nat.add_div_right _ hc,
        Nat.div_eq_of_lt (by omega), Nat.div_eq_of_lt (by omega)]
  rw [hexChunks, hcount, List.range_succ_eq_map, List.map_cons, List.map_map]
  simp only [Nat.zero_mul, List.drop_zero]
  congr 1
  apply List.map_congr_left
  intro i _
  show (xs.drop ((i + 1) * c)).take c = ((xs.drop c).drop (i * c)).take c
  rw [List.drop_drop, Nat.succ_mul, Nat.add_comm]

theorem hexChunks_induction {c : Nat} (hc : 1 ≤ c) {motive : List Byte → Prop}
    (nil : motive []) (cons : ∀ xs, xs ≠ [] → motive (xs.drop c) → motive xs) :
    ∀ xs, motive xs := by
  intro xs
  induction hn : xs.length using Nat.strongRecOn generalizing xs with
  | ind n ih =>
      rcases eq_or_ne xs [] with rfl | hxs
      · exact nil
      · have hpos := List.length_pos_iff.mpr hxs
        exact cons xs hxs (ih (xs.drop c).length (by rw [List.length_drop]; omega) _ rfl)

theorem hexChunks_flatten {c : Nat} (hc : 1 ≤ c) (xs : List Byte) :
    (hexChunks c xs).flatten = xs := by
  induction xs using hexChunks_induction hc with
  | nil => rw [hexChunks_nil hc, List.flatten_nil]
  | cons xs hxs ih => rw [hexChunks_cons hc hxs, List.flatten_cons, ih, List.take_append_drop]

theorem hexChunks_length {c : Nat} (hc : 1 ≤ c) (xs : List Byte) :
    ∀ chunk ∈ hexChunks c xs, chunk ≠ [] ∧ chunk.length ≤ c := by
  induction xs using hexChunks_induction hc with
  | nil =>
      rw [hexChunks_nil hc]
      intro chunk hmem
      cases hmem
  | cons xs hxs ih =>
      rw [hexChunks_cons hc hxs]
      intro chunk hmem
      rcases List.mem_cons.mp hmem with rfl | hmem
      · refine ⟨?_, List.length_take_le c xs⟩
        intro hnil
        rcases List.take_eq_nil_iff.mp hnil with hzero | hempty
        · omega
        · exact hxs hempty
      · exact ih chunk hmem

theorem hexChunks_drop_ne {c : Nat} (hc : 1 ≤ c) (xs : List Byte) :
    hexChunks c (xs.drop c) ≠ [] ↔ c < xs.length := by
  rcases eq_or_ne (xs.drop c) [] with hnil | hne
  · rw [hnil, hexChunks_nil hc]
    have := List.drop_eq_nil_iff.mp hnil
    simp only [ne_eq, not_true_eq_false, false_iff]
    omega
  · rw [hexChunks_cons hc hne]
    have : ¬xs.length ≤ c := fun h => hne (List.drop_eq_nil_iff.mpr h)
    simp only [ne_eq, reduceCtorEq, not_false_eq_true, true_iff]
    omega

/-! ## Where the chunks go -/

/-- The stores of the chunks, from a segment and an offset on. -/
def hexStores : (upper16 offset : Nat) → List (List Byte) → List (Nat × List Byte)
  | _, _, [] => []
  | upper16, offset, chunk :: chunks =>
      if offset > 0xFFFF then
        ((upper16 + 1) * 65536, chunk) :: hexStores (upper16 + 1) chunk.length chunks
      else
        (upper16 * 65536 + offset, chunk) :: hexStores upper16 (offset + chunk.length) chunks

def hexNext (upper16 offset : Nat) : Nat :=
  if offset > 0xFFFF then (upper16 + 1) * 65536 else upper16 * 65536 + offset

def hexOffset (offset : Nat) : Nat := if offset > 0xFFFF then 0 else offset

/-- Each chunk that has a successor ends within its segment. -/
def InSegments : (offset : Nat) → List (List Byte) → Prop
  | _, [] => True
  | offset, chunk :: chunks =>
      (chunks ≠ [] → hexOffset offset + chunk.length ≤ 65536) ∧
        InSegments (hexOffset offset + chunk.length) chunks

theorem hexOffset_of_le {offset : Nat} (h : offset ≤ 65536) :
    hexOffset offset = offset % 65536 := by
  rw [hexOffset]
  split <;> omega

theorem hexNext_le (u off : Nat) : hexNext u off ≤ u * 65536 + off := by
  rw [hexNext]
  split <;> omega

theorem hexStores_cons (u off : Nat) (chunk : List Byte) (chunks : List (List Byte)) :
    ∃ u', hexNext u off = u' * 65536 + hexOffset off ∧
      hexStores u off (chunk :: chunks) =
        (hexNext u off, chunk) :: hexStores u' (hexOffset off + chunk.length) chunks := by
  rw [hexStores, hexNext, hexOffset]
  rcases Nat.lt_or_ge 0xFFFF off with hover | hin
  · rw [if_pos hover, if_pos hover, if_pos hover, Nat.zero_add]
    exact ⟨u + 1, (Nat.add_zero _).symm, rfl⟩
  · rw [if_neg (Nat.not_lt.mpr hin), if_neg (Nat.not_lt.mpr hin), if_neg (Nat.not_lt.mpr hin)]
    exact ⟨u, rfl, rfl⟩

/-- **In segments, end to end.** -/
theorem hexStores_blocks {u off : Nat} {chunks : List (List Byte)} (hoff : off ≤ 65536)
    (h : InSegments off chunks) : hexStores u off chunks = blocks (u * 65536 + off) chunks := by
  induction chunks generalizing u off with
  | nil => rfl
  | cons chunk chunks ih =>
      obtain ⟨u', hnext, hstores⟩ := hexStores_cons u off chunk chunks
      obtain ⟨hfits, hrest⟩ := h
      have haddr : hexNext u off = u * 65536 + off := by
        rw [hexNext]
        split <;> omega
      rw [hstores, haddr, blocks]
      congr 1
      cases chunks with
      | nil => rfl
      | cons chunk' chunks =>
          rw [ih (hfits (List.cons_ne_nil _ _)) hrest, ← haddr, hnext, Nat.add_assoc]

theorem hexStores_reach {u off : Nat} {chunks : List (List Byte)} :
    ∀ w ∈ hexStores u off chunks,
      w.1 + w.2.length ≤ hexNext u off + chunks.flatten.length := by
  induction chunks generalizing u off with
  | nil =>
      intro w hw
      cases hw
  | cons chunk chunks ih =>
      intro w hw
      obtain ⟨u', hnext, hstores⟩ := hexStores_cons u off chunk chunks
      rw [hstores] at hw
      rw [List.flatten_cons, List.length_append]
      rcases List.mem_cons.mp hw with rfl | hw
      · show hexNext u off + chunk.length ≤ _
        omega
      · have hle := hexNext_le u' (hexOffset off + chunk.length)
        have := ih w hw
        omega

/-- **Not in segments, not to the end.** -/
theorem hexStores_short {u off : Nat} {chunks : List (List Byte)}
    (hne : ∀ chunk ∈ chunks, chunk ≠ []) (h : ¬InSegments off chunks) :
    ∀ w ∈ hexStores u off chunks,
      w.1 + w.2.length < hexNext u off + chunks.flatten.length := by
  induction chunks generalizing u off with
  | nil => exact absurd trivial h
  | cons chunk chunks ih =>
      intro w hw
      obtain ⟨u', hnext, hstores⟩ := hexStores_cons u off chunk chunks
      rw [hstores] at hw
      rw [List.flatten_cons, List.length_append]
      have hchunks : chunks ≠ [] := by
        rintro rfl
        exact h ⟨fun hnil => absurd rfl hnil, trivial⟩
      have hpos : 0 < chunks.flatten.length := by
        obtain ⟨chunk', rest, rfl⟩ := List.exists_cons_of_ne_nil hchunks
        have := List.length_pos_iff.mpr
          (hne chunk' (List.mem_cons_of_mem _ List.mem_cons_self))
        rw [List.flatten_cons, List.length_append]
        omega
      rcases List.mem_cons.mp hw with rfl | hw
      · show hexNext u off + chunk.length < _
        omega
      · have hle := hexNext_le u' (hexOffset off + chunk.length)
        rcases Nat.lt_or_ge 65536 (hexOffset off + chunk.length) with hcross | hfits
        · -- the chunk crosses: the next one starts below its end
          have hlow : hexNext u' (hexOffset off + chunk.length) = (u' + 1) * 65536 :=
            if_pos (by omega)
          have := hexStores_reach w hw
          omega
        · have hrest : ¬InSegments (hexOffset off + chunk.length) chunks :=
            fun hin => h ⟨fun _ => hfits, hin⟩
          have := ih (fun c hc => hne c (List.mem_cons_of_mem _ hc)) hrest w hw
          omega

theorem inSegments_hexChunks {c : Nat} (hc : 1 ≤ c) (xs : List Byte) {off : Nat}
    (hoff : off ≤ 65536) :
    InSegments off (hexChunks c xs) ↔
      ∀ j, (j + 1) * c < xs.length → (off + j * c) % 65536 + c ≤ 65536 := by
  induction xs using hexChunks_induction hc generalizing off with
  | nil =>
      rw [hexChunks_nil hc]
      exact ⟨fun _ j hj => absurd hj (Nat.not_lt_zero _), fun _ => trivial⟩
  | cons xs hxs ih =>
      rw [hexChunks_cons hc hxs, InSegments, hexChunks_drop_ne hc, hexOffset_of_le hoff]
      constructor
      · rintro ⟨hfits, hrest⟩ j hj
        have hlt : c < xs.length := by
          rw [Nat.succ_mul] at hj
          omega
        rw [List.length_take, Nat.min_eq_left (Nat.le_of_lt hlt)] at hfits hrest
        cases j with
        | zero =>
            rw [Nat.zero_mul, Nat.add_zero]
            exact hfits hlt
        | succ j =>
            have hstep := (ih (hfits hlt)).mp hrest j (by
              rw [List.length_drop]
              rw [Nat.succ_mul] at hj
              omega)
            rw [Nat.succ_mul, ← Nat.add_assoc, Nat.add_right_comm]
            omega
      · intro h
        have hfits : c < xs.length → off % 65536 + (xs.take c).length ≤ 65536 := by
          intro hlt
          have := h 0 (by omega)
          rw [List.length_take, Nat.min_eq_left (Nat.le_of_lt hlt)]
          omega
        refine ⟨hfits, ?_⟩
        rcases Nat.lt_or_ge c xs.length with hlt | hge
        · refine (ih (hfits hlt)).mpr ?_
          intro j hj
          have := h (j + 1) (by
            rw [List.length_drop] at hj
            rw [Nat.succ_mul]
            omega)
          rw [List.length_take, Nat.min_eq_left (Nat.le_of_lt hlt)]
          rw [Nat.succ_mul] at this
          omega
        · rw [List.drop_eq_nil_iff.mpr hge, hexChunks_nil hc]
          trivial

/-! ## The transfer -/

/-- What stores and `n` data bytes leave. -/
structure Loaded (cl cl' : Chainloader) (stores : List (Nat × List Byte)) (n : Nat) : Prop where
  mem : cl'.mem = memWrites cl.mem stores
  w20 : cl'.w20 = cl.w20 + BitVec.ofNat 32 n

theorem Loaded.trans {cl cl' cl'' : Chainloader} {ws ws' : List (Nat × List Byte)} {n n' : Nat}
    (h : Loaded cl cl' ws n) (h' : Loaded cl' cl'' ws' n') :
    Loaded cl cl'' (ws ++ ws') (n + n') where
  mem := by rw [h'.mem, h.mem, memWrites_append]
  w20 := by rw [h'.w20, h.w20, BitVec.add_assoc, BitVec.ofNat_add_ofNat]

theorem clFeeds_append (cl : Chainloader) (lines lines' : List (List Byte)) :
    clFeeds cl (lines ++ lines') =
      ((clFeeds cl lines).1 ++ (clFeeds (clFeeds cl lines).2 lines').1,
        (clFeeds (clFeeds cl lines).2 lines').2) := by
  induction lines generalizing cl with
  | nil => rfl
  | cons line lines ih =>
      rw [List.cons_append, clFeeds, ih]
      rfl

/-- The records, fed with the base at segment `u`: zeros are returned, the stores are made and `n`
bytes are counted. -/
def Feeds (u : Nat) (records : List (List Byte)) (stores : List (Nat × List Byte)) (n : Nat) :
    Prop :=
  ∀ cl : Chainloader, cl.x24 = u * 65536 →
    (clFeeds cl records).1 = List.replicate records.length 0 ∧
      Loaded cl (clFeeds cl records).2 stores n

theorem Feeds.nil (u : Nat) : Feeds u [] [] 0 :=
  fun _ _ => ⟨rfl, rfl, (BitVec.add_zero _).symm⟩

variable {u off n : Nat} {chunk record : List Byte} {records chunks : List (List Byte)}
  {ws : List (Nat × List Byte)}

theorem Feeds.data (h : Feeds u records ws n) (hrecord : makeHexRecord 0x00 off chunk = some record)
    (hoff : off < 65536) :
    Feeds u (record :: records) ((u * 65536 + off, chunk) :: ws) (chunk.length + n) := by
  intro cl hcl
  have hfeed := clFeed_data hrecord cl
  rw [Nat.mod_eq_of_lt hoff, hcl] at hfeed
  have hloaded : Loaded cl (clFeed cl record).2 [(u * 65536 + off, chunk)] chunk.length := by
    rw [hfeed]
    exact ⟨rfl, rfl⟩
  obtain ⟨hrets, hall⟩ := h (clFeed cl record).2 (by rw [hfeed])
  refine ⟨?_, hloaded.trans hall⟩
  rw [clFeeds, hrets, hfeed]
  rfl

/-- An address record in front moves the base, from wherever it was, and loads nothing. -/
theorem Feeds.address (h : Feeds u records ws n) (hext : extRecord u = some record)
    (hu : u < 65536) (cl : Chainloader) :
    (clFeeds cl (record :: records)).1 = List.replicate (record :: records).length 0 ∧
      Loaded cl (clFeeds cl (record :: records)).2 ws n := by
  obtain ⟨line, stage, w27, hfeed⟩ := clFeed_ext hext cl
  have hloaded : Loaded cl (clFeed cl record).2 [] 0 := by
    rw [hfeed]
    exact ⟨rfl, (BitVec.add_zero _).symm⟩
  obtain ⟨hrets, hall⟩ := h (clFeed cl record).2 (by rw [hfeed, Nat.mod_eq_of_lt hu])
  have hboth := hloaded.trans hall
  rw [Nat.zero_add] at hboth
  refine ⟨?_, hboth⟩
  rw [clFeeds, hrets, hfeed]
  rfl

theorem next_segment (hover : 0xFFFF < off) (hn : 0 < n) (hfit : u * 65536 + off + n ≤ 2 ^ 32) :
    u + 1 < 65536 ∧ (u + 1) * 65536 + n ≤ 2 ^ 32 := by
  have hstart : (u + 1) * 65536 ≤ u * 65536 + off := by
    rw [Nat.succ_mul]
    exact Nat.add_le_add_left hover _
  have hlt : (u + 1) * 65536 < 65536 * 65536 := Nat.lt_of_le_of_lt hstart (by omega)
  exact ⟨Nat.lt_of_mul_lt_mul_right hlt, Nat.le_trans (Nat.add_le_add_right hstart _) hfit⟩

theorem clFeeds_data (hchunks : ∀ chunk ∈ chunks, chunk ≠ [] ∧ chunk.length < 256)
    (hfit : u * 65536 + off + chunks.flatten.length ≤ 2 ^ 32) :
    ∃ records, dataRecords u off chunks = some records ∧
      Feeds u records (hexStores u off chunks) chunks.flatten.length := by
  induction chunks generalizing u off with
  | nil => exact ⟨[], rfl, .nil u⟩
  | cons chunk chunks ih =>
      obtain ⟨hne, hlt⟩ := hchunks chunk List.mem_cons_self
      have hpos := List.length_pos_iff.mpr hne
      have hrest := fun c hc => hchunks c (List.mem_cons_of_mem chunk hc)
      rw [List.flatten_cons, List.length_append] at hfit ⊢
      rcases Nat.lt_or_ge 0xFFFF off with hover | hin
      · -- an address record first
        obtain ⟨ext, hext⟩ : ∃ ext, extRecord (u + 1) = some ext :=
          makeHexRecord_some (by simp)
        obtain ⟨record, hrecord⟩ := @makeHexRecord_some 0x00 0 chunk hlt
        obtain ⟨hu, hfit'⟩ := next_segment hover (Nat.add_pos_left hpos _) hfit
        rw [← Nat.add_assoc, ← Nat.zero_add chunk.length] at hfit'
        obtain ⟨records, hrecords, hfeeds⟩ := ih hrest hfit'
        refine ⟨ext :: record :: records, ?_, ?_⟩
        · rw [dataRecords, if_pos hover, hext, hrecord, hrecords]
          rfl
        · intro cl _
          have hall := (hfeeds.data hrecord (by decide)).address hext hu cl
          rw [Nat.zero_add, Nat.add_zero] at hall
          rw [hexStores, if_pos hover]
          exact hall
      · obtain ⟨record, hrecord⟩ := @makeHexRecord_some 0x00 off chunk hlt
        obtain ⟨records, hrecords, hfeeds⟩ := @ih u (off + chunk.length) hrest (by omega)
        refine ⟨record :: records, ?_, ?_⟩
        · rw [dataRecords, if_neg (Nat.not_lt.mpr hin), hrecord, hrecords]
          rfl
        · rw [hexStores, if_neg (Nat.not_lt.mpr hin)]
          exact hfeeds.data hrecord (by omega)

/-- The image stands at its place and nothing else has changed, the returns are zeros and a one,
and the bytes are counted. -/
structure TransferOk (image : List Byte) (base : Nat) (cl : Chainloader)
    (rets : List W) (cl' : Chainloader) : Prop where
  returns : ∃ n, rets = List.replicate n 0 ++ [1]
  loaded : slice cl'.mem base image.length = image
  frame : ∀ a, a < base ∨ base + image.length ≤ a → cl'.mem a = cl.mem a
  count : cl'.w20.toNat = image.length

/-- The records of an image load it, whatever RAM and buffers held before. -/
def LoadsExactly (image : List Byte) (base chunkSize : Nat) : Prop :=
  ∃ records, kernelToHexRecords image base chunkSize true = some records ∧
    ∀ cl : Chainloader, cl.x24 = 0 → cl.w20 = 0 →
      TransferOk image base cl (clFeeds cl records).1 (clFeeds cl records).2

variable {image : List Byte} {base chunkSize : Nat}

/-- All records of an image: what the parser returns, and the stores it makes. -/
theorem clFeeds_kernel (hc1 : 1 ≤ chunkSize) (hc : chunkSize ≤ 32)
    (hfit : base + image.length ≤ 2 ^ 32) :
    ∃ records, kernelToHexRecords image base chunkSize true = some records ∧
      ∀ cl : Chainloader, (∃ n, (clFeeds cl records).1 = List.replicate n 0 ++ [1]) ∧
        Loaded cl (clFeeds cl records).2
          (hexStores (base / 65536 % 65536) (base % 65536) (hexChunks chunkSize image))
          image.length := by
  have hupper : base >>> 16 &&& 0xFFFF = base / 65536 % 65536 := by
    rw [Nat.shiftRight_eq_div_pow]
    exact Nat.and_two_pow_sub_one_eq_mod _ 16
  have hlower : base &&& 0xFFFF = base % 65536 := Nat.and_two_pow_sub_one_eq_mod base 16
  have hu : base / 65536 % 65536 < 65536 := Nat.mod_lt _ (by decide)
  have hchunks : ∀ chunk ∈ hexChunks chunkSize image, chunk ≠ [] ∧ chunk.length < 256 := by
    intro chunk hmem
    obtain ⟨hne, hle⟩ := hexChunks_length hc1 image chunk hmem
    exact ⟨hne, by omega⟩
  have hpointer : base / 65536 % 65536 * 65536 + base % 65536 +
      (hexChunks chunkSize image).flatten.length ≤ 2 ^ 32 := by
    rw [hexChunks_flatten hc1]
    omega
  obtain ⟨ext, hext⟩ : ∃ ext, extRecord (base / 65536 % 65536) = some ext :=
    makeHexRecord_some (by simp)
  obtain ⟨eof, heof⟩ : ∃ eof, makeHexRecord 0x01 0 [] = some eof := makeHexRecord_some (by simp)
  obtain ⟨records, hrecords, hfeeds⟩ := clFeeds_data hchunks hpointer
  rw [hexChunks_flatten hc1] at hfeeds
  refine ⟨ext :: records ++ [eof], ?_, ?_⟩
  · rw [kernelToHexRecords, if_neg (by omega), hupper, hlower]
    simp only [hext, hrecords, heof]
    rfl
  · intro cl
    obtain ⟨hrets, hall⟩ := hfeeds.address hext hu cl
    obtain ⟨line, w27, hlast⟩ := clFeed_eof heof (clFeeds cl (ext :: records)).2
    rw [clFeeds_append, hrets, clFeeds, hlast]
    exact ⟨⟨(ext :: records).length, rfl⟩, hall.mem, hall.w20⟩

theorem loadsExactly_of_inSegments (hc1 : 1 ≤ chunkSize) (hc : chunkSize ≤ 32)
    (hfit : base + image.length ≤ 2 ^ 32) (hlen : image.length < 2 ^ 32)
    (h : InSegments (base % 65536) (hexChunks chunkSize image)) :
    LoadsExactly image base chunkSize := by
  obtain ⟨records, hrecords, hfeeds⟩ := clFeeds_kernel hc1 hc hfit
  refine ⟨records, hrecords, ?_⟩
  intro cl _ hw20
  obtain ⟨hrets, hloaded⟩ := hfeeds cl
  have hmod : base % 65536 ≤ 65536 := Nat.le_of_lt (Nat.mod_lt _ (by decide))
  have hstores : hexStores (base / 65536 % 65536) (base % 65536) (hexChunks chunkSize image) =
      blocks base (hexChunks chunkSize image) := by
    rcases eq_or_ne image [] with rfl | himage
    · rw [hexChunks_nil hc1]
      rfl
    · have hpos := List.length_pos_iff.mpr himage
      rw [hexStores_blocks hmod h]
      congr 1
      omega
  have hmem := hloaded.mem
  rw [hstores] at hmem
  refine ⟨hrets, ?_, ?_, ?_⟩
  · have := slice_memWrites_blocks cl.mem base (hexChunks chunkSize image)
    rwa [hexChunks_flatten hc1, ← hmem] at this
  · intro a ha
    rw [hmem]
    apply memWrites_of_outside
    intro w hw
    obtain ⟨hlo, hhi⟩ := blocks_bounds hw
    rw [hexChunks_flatten hc1] at hhi
    omega
  · rw [hloaded.w20, hw20, BitVec.ofNat_eq_ofNat, BitVec.zero_add, BitVec.toNat_ofNat,
      Nat.mod_eq_of_lt hlen]

/-- Where a chunk with a successor does not, the last byte of the image's place is not written. -/
theorem inSegments_of_loadsExactly (hc1 : 1 ≤ chunkSize) (hc : chunkSize ≤ 32)
    (hfit : base + image.length ≤ 2 ^ 32) (h : LoadsExactly image base chunkSize) :
    image.length < 2 ^ 32 ∧ InSegments (base % 65536) (hexChunks chunkSize image) := by
  obtain ⟨records, hrecords, hok⟩ := h
  obtain ⟨records', hrecords', hfeeds⟩ := clFeeds_kernel hc1 hc hfit
  obtain rfl : records' = records := Option.some.inj (hrecords'.symm.trans hrecords)
  -- RAM full of a byte that the image does not end with
  let cl : Chainloader :=
    ⟨0, 0, 0, 0, 0, fun _ => 0, fun _ => 0, fun _ => image.getLastD 0 + 1⟩
  obtain ⟨_, himage, _, hcount⟩ := hok cl rfl rfl
  obtain ⟨_, hmem, hw20⟩ := hfeeds cl
  constructor
  · rw [hw20, BitVec.toNat_add, BitVec.toNat_ofNat] at hcount
    change (0 + image.length % 2 ^ 32) % 2 ^ 32 = image.length at hcount
    omega
  · by_contra hcross
    have hchunks : ∀ chunk ∈ hexChunks chunkSize image, chunk ≠ [] :=
      fun chunk hmem => (hexChunks_length hc1 image chunk hmem).1
    have hshort := hexStores_short (u := base / 65536 % 65536) hchunks hcross
    have hnext := hexNext_le (base / 65536 % 65536) (base % 65536)
    rw [hexChunks_flatten hc1] at hshort
    rcases List.eq_nil_or_concat image with rfl | ⟨front, b, rfl⟩
    · rw [hexChunks_nil hc1] at hcross
      exact hcross trivial
    · rw [List.length_concat] at hfit hshort himage
      have hkept : (clFeeds cl records').2.mem (base + front.length) = b + 1 := by
        rw [hmem, memWrites_of_outside]
        · show (front.concat b).getLastD 0 + 1 = b + 1
          simp
        · intro w hw
          have := hshort w hw
          omega
      have hlast := slice_getElem? (clFeeds cl records').2.mem (a := base)
        (Nat.lt_succ_self front.length)
      rw [himage, hkept, List.concat_eq_append, List.getElem?_concat_length] at hlast
      have hne : b ≠ b + 1 := byte_all (p := fun b => b ≠ b + 1) (by decide +kernel) b
      exact hne (Option.some.inj hlast)

/-- **The transfer**: the image is loaded if and only if every chunk that has a successor ends
within its 64 KiB segment, and the length of the image is a word. -/
theorem hex_transfer_exact (hc1 : 1 ≤ chunkSize) (hc : chunkSize ≤ 32)
    (hfit : base + image.length ≤ 2 ^ 32) :
    LoadsExactly image base chunkSize ↔ image.length < 2 ^ 32 ∧
      ∀ j, (j + 1) * chunkSize < image.length →
        (base + j * chunkSize) % 65536 + chunkSize ≤ 65536 := by
  have hiff : InSegments (base % 65536) (hexChunks chunkSize image) ↔
      ∀ j, (j + 1) * chunkSize < image.length →
        (base + j * chunkSize) % 65536 + chunkSize ≤ 65536 := by
    rw [inSegments_hexChunks hc1 image (Nat.le_of_lt (Nat.mod_lt _ (by decide)))]
    simp only [Nat.mod_add_mod]
  rw [← hiff]
  constructor
  · exact inSegments_of_loadsExactly hc1 hc hfit
  · rintro ⟨hlen, h⟩
    exact loadsExactly_of_inSegments hc1 hc hfit hlen h

/-- An image whose chunks keep to their segments. -/
theorem hex_transfer_exact_demo : LoadsExactly [1, 2, 3] 0xFFFE 2 := by
  refine (hex_transfer_exact (by decide) (by decide) (by decide)).mpr ⟨by decide, ?_⟩
  intro j hj
  have hlt : (j + 1) * 2 < 3 := hj
  obtain rfl : j = 0 := by omega
  decide

/-- Three bytes from 0xFFFF on, two in a record: the third goes to 0x10000, where the second should
have stayed, and 0x10001 is not written. -/
theorem crossing_chunk_misplaced : 0xFFFF + 3 ≤ 2 ^ 32 ∧ ¬LoadsExactly [1, 2, 3] 0xFFFF 2 := by
  refine ⟨by decide, ?_⟩
  rintro ⟨records, hrecords, hok⟩
  let cl : Chainloader := ⟨0, 0, 0, 0, 0, fun _ => 0, fun _ => 0, fun _ => 0⟩
  have hrun : (kernelToHexRecords [1, 2, 3] 0xFFFF 2 true).map
      (fun records => slice (clFeeds cl records).2.mem 0xFFFF 3) = some [1, 3, 0] := by
    decide +kernel
  rw [hrecords, Option.map_some] at hrun
  have hslice : slice (clFeeds cl records).2.mem 0xFFFF 3 = [1, 3, 0] := Option.some.inj hrun
  have hloaded : slice (clFeeds cl records).2.mem 0xFFFF 3 = [1, 2, 3] := (hok cl rfl rfl).loaded
  exact absurd (hslice.symm.trans hloaded) (by decide)

end WsPi5
