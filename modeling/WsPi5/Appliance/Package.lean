/-
# `WsPi5.Appliance.Package` — `scripts/mk_appliance.py`

The packager takes the image of a kernel whose slab is empty, writes routes and content into the
slab, and cuts the image behind the last byte of the content.

    offset in the slab      what                                       written by
    0                       magic, version, number of routes           `buildSlab`
    16                      bytes of content                           `buildSlab`
    24 + 48 i               entry of route i: lengths, and offsets     `emitRouteEntry`
                            of path, body and header in the content
    24 + 48 MAX_ROUTES      content: path, header and body of          `buildLoop`
                            each route, end to end

`MAX_ROUTES` and `CONTENT_MAX` are those that the kernel was built with; both sides are one
`SlabSizes` here.  A `ValueError`, and a number that `struct` cannot pack, is `none`.

**What is outside.**  `collect_routes` reads the list of routes from a directory; here the list is
any one.

**Proved here** (`package_slab`): where a packaged image lies in memory, there is a slab with these
parts (`SlabAt`).
-/
import WsPi5.Tcp.Types
import WsPi5.Lib.Mem
import Mathlib.Data.List.Forall2

namespace WsPi5.Appliance

open Lib

/-! ## Layout -/

/-- The sizes that packager and kernel share. -/
structure SlabSizes where
  /-- `APPLIANCE_MAX_ROUTES` -/
  maxRoutes : Nat
  /-- `APPLIANCE_CONTENT_MAX` -/
  contentMax : Nat

def defaultSizes : SlabSizes := ⟨512, 255 * 1024 * 1024 - (24 + 512 * 48)⟩

/-- `APPLIANCE_CONTENT_OFF` -/
def SlabSizes.contentOff (sz : SlabSizes) : Nat := 24 + sz.maxRoutes * 48

/-- `APPLIANCE_SLAB_SIZE` -/
def SlabSizes.slabSize (sz : SlabSizes) : Nat := sz.contentOff + sz.contentMax

example : defaultSizes.slabSize = 255 * 1024 * 1024 := by decide

/-- `WSPINONE` -/
def magicNone : List Byte := [0x57, 0x53, 0x50, 0x49, 0x4E, 0x4F, 0x4E, 0x45]

/-- `WSPIAPLI` -/
def magicV1 : List Byte := [0x57, 0x53, 0x50, 0x49, 0x41, 0x50, 0x4C, 0x49]

def maxPathBytes : Nat := 1024

/-! ## Routes -/

structure Route where
  path : String
  body : List Byte
  mime : String

/-- `s.encode("ascii")` -/
def encodeAscii (s : String) : Option (List Byte) :=
  if s.toList.all fun c => c.toNat < 128 then some (ascii s) else none

def buildHeader (bodyLen : Nat) (mime : String) : Option (List Byte) :=
  encodeAscii ("HTTP/1.1 200 OK\r\nServer: ws_pi5\r\nContent-Type: " ++ mime ++
    "\r\nContent-Length: " ++ toString bodyLen ++ "\r\n\r\n")

/-- What a route puts into the content. -/
structure Part where
  path : List Byte
  hdr : List Byte
  body : List Byte

def Part.bytes (p : Part) : List Byte := p.path ++ (p.hdr ++ p.body)

/-- A route's path within its limit, its header and its body. -/
def encodeRoute (r : Route) : Option Part := do
  let path ← encodeAscii r.path
  if path.length > maxPathBytes then none
  else
    let hdr ← buildHeader r.body.length r.mime
    some ⟨path, hdr, r.body⟩

/-! ## The slab -/

/-- The fields of a route entry that say where its bytes are. -/
structure RouteEntry where
  pathLen : Nat
  bodyLen : Nat
  pathPtr : Nat
  bodyPtr : Nat
  hdrPtr : Nat
  hdrLen : Nat

/-- `struct.pack_into` of one number. -/
def packInto (slab : Nat → Byte) (off k v : Nat) : Option (Nat → Byte) :=
  if v < 256 ^ k then some (storeLe slab off k v) else none

/-- `_emit_route_entry`: a static route for GET and HEAD. -/
def emitRouteEntry (slab : Nat → Byte) (idx : Nat) (e : RouteEntry) : Option (Nat → Byte) := do
  let entry := 24 + idx * 48
  let slab ← packInto slab entry 4 e.pathLen
  let slab ← packInto slab (entry + 4) 4 e.bodyLen
  let slab ← packInto slab (entry + 8) 8 e.pathPtr
  let slab ← packInto slab (entry + 16) 8 e.bodyPtr
  let slab ← packInto slab (entry + 24) 8 e.hdrPtr
  let slab ← packInto slab (entry + 32) 4 e.hdrLen
  let slab ← packInto slab (entry + 36) 1 0
  packInto slab (entry + 37) 1 3

/-- The entry of a part that stands at an offset of the content. -/
def Part.entry (p : Part) (off : Nat) : RouteEntry where
  pathLen := p.path.length
  bodyLen := p.body.length
  pathPtr := off
  bodyPtr := off + p.path.length + p.hdr.length
  hdrPtr := off + p.path.length
  hdrLen := p.hdr.length

/-- The loop over the routes: the slab, and the content so far. -/
def buildLoop : (idx : Nat) → (Nat → Byte) → List Byte → List Route →
    Option ((Nat → Byte) × List Byte)
  | _, slab, content, [] => some (slab, content)
  | idx, slab, content, r :: rs => do
      let p ← encodeRoute r
      let slab ← emitRouteEntry slab idx (p.entry content.length)
      buildLoop (idx + 1) slab (content ++ p.bytes) rs

def buildSlab (sz : SlabSizes) (routes : List Route) : Option (Nat → Byte) :=
  if routes.length > sz.maxRoutes then none
  else do
    let slab := memWrite (fun _ => 0) 0 magicV1
    let slab ← packInto slab 8 4 1
    let slab ← packInto slab 12 4 routes.length
    let (slab, content) ← buildLoop 0 slab [] routes
    if content.length > sz.contentMax then none
    else
      let slab ← packInto slab 16 4 content.length
      some (memWrite slab sz.contentOff content)

/-! ## The image -/

def byteAt (image : List Byte) (i : Nat) : Byte := image.getD i 0

/-- `image.find(sub, start)` -/
def find (image sub : List Byte) (start : Nat) : Option Nat :=
  (List.range' start (image.length + 1 - start)).find? fun off =>
    (image.drop off).take sub.length = sub

def findSlabOffset (sz : SlabSizes) (image : List Byte) : Option Nat := do
  let off ← find image magicNone 0
  if (find image magicNone (off + 1)).isSome then none
  else if off + sz.slabSize > image.length then none
  else some off

/-- `package`: `verify_kernel_ksize`, the slab written over the placeholder, and the cut. -/
def package (sz : SlabSizes) (image : List Byte) (routes : List Route) : Option (List Byte) := do
  let slabOff ← findSlabOffset sz image
  if loadLe (byteAt image) (slabOff + 20) 4 ≠ sz.slabSize then none
  else
    let slab ← buildSlab sz routes
    let newImage := memWrite (byteAt image) slabOff (slice slab 0 sz.slabSize)
    let clen := loadLe slab 16 4
    some (slice newImage 0 (slabOff + sz.contentOff + clen))

/-! ## Entries -/

def readEntry (mem : Nat → Byte) (p : Nat) : RouteEntry where
  pathLen := loadLe mem p 4
  bodyLen := loadLe mem (p + 4) 4
  pathPtr := loadLe mem (p + 8) 8
  bodyPtr := loadLe mem (p + 16) 8
  hdrPtr := loadLe mem (p + 24) 8
  hdrLen := loadLe mem (p + 32) 4

theorem readEntry_congr {mem mem' : Nat → Byte} {p p' : Nat}
    (h : slice mem p 48 = slice mem' p' 48) : readEntry mem p = readEntry mem' p' := by
  have hfield : ∀ off k, off + k ≤ 48 → loadLe mem (p + off) k = loadLe mem' (p' + off) k :=
    fun off k hle => loadLe_congr (slice_part h hle)
  rw [readEntry, readEntry, RouteEntry.mk.injEq]
  exact ⟨hfield 0 4 (by decide), hfield 4 4 (by decide), hfield 8 8 (by decide),
    hfield 16 8 (by decide), hfield 24 8 (by decide), hfield 32 4 (by decide)⟩

theorem packInto_some {slab slab' : Nat → Byte} {off k v : Nat}
    (h : packInto slab off k v = some slab') : v < 256 ^ k ∧ slab' = storeLe slab off k v := by
  rw [packInto] at h
  split at h
  · rename_i hlt
    exact ⟨hlt, (Option.some.inj h).symm⟩
  · cases h

theorem emitRouteEntry_some {slab slab' : Nat → Byte} {idx : Nat} {e : RouteEntry}
    (h : emitRouteEntry slab idx e = some slab') :
    readEntry slab' (24 + idx * 48) = e ∧
      ∀ a n, a + n ≤ 24 + idx * 48 ∨ 24 + (idx + 1) * 48 ≤ a →
        slice slab' a n = slice slab a n := by
  simp only [emitRouteEntry, Option.bind_eq_bind, Option.bind_eq_some_iff] at h
  obtain ⟨_, h₁, _, h₂, _, h₃, _, h₄, _, h₅, _, h₆, _, h₇, h₈⟩ := h
  obtain ⟨hb₁, rfl⟩ := packInto_some h₁
  obtain ⟨hb₂, rfl⟩ := packInto_some h₂
  obtain ⟨hb₃, rfl⟩ := packInto_some h₃
  obtain ⟨hb₄, rfl⟩ := packInto_some h₄
  obtain ⟨hb₅, rfl⟩ := packInto_some h₅
  obtain ⟨hb₆, rfl⟩ := packInto_some h₆
  obtain ⟨-, rfl⟩ := packInto_some h₇
  obtain ⟨-, rfl⟩ := packInto_some h₈
  rw [show 24 + (idx + 1) * 48 = 24 + idx * 48 + 48 by omega]
  generalize 24 + idx * 48 = p
  constructor
  · rw [readEntry]
    simp (disch := omega) only [loadLe_storeLe_outside, loadLe_storeLe, Nat.mod_eq_of_lt]
  · intro a n ha
    simp (disch := omega) only [slice_storeLe_outside]

/-! ## The loop over the routes -/

/-- Where part `i` stands in the content. -/
def partOff (parts : List Part) (i : Nat) : Nat := ((parts.take i).flatMap Part.bytes).length

theorem Part.bytes_length (p : Part) :
    p.bytes.length = p.path.length + p.hdr.length + p.body.length := by
  rw [Part.bytes, List.length_append, List.length_append, Nat.add_assoc]

theorem partOff_succ (p : Part) (ps : List Part) (i : Nat) :
    partOff (p :: ps) (i + 1) = p.bytes.length + partOff ps i := by
  rw [partOff, List.take_succ_cons, List.flatMap_cons, List.length_append, partOff]

/-- What the loop leaves: the parts end to end behind the content so far, an entry for each, and
the rest of the slab. -/
theorem buildLoop_some {rs : List Route} {idx : Nat} {slab slab' : Nat → Byte}
    {content content' : List Byte} (h : buildLoop idx slab content rs = some (slab', content')) :
    ∃ parts, List.Forall₂ (fun r p => encodeRoute r = some p) rs parts ∧
      content' = content ++ parts.flatMap Part.bytes ∧
      (∀ i (hi : i < parts.length), readEntry slab' (24 + (idx + i) * 48) =
        parts[i].entry (content.length + partOff parts i)) ∧
      ∀ a n, a + n ≤ 24 + idx * 48 ∨ 24 + (idx + rs.length) * 48 ≤ a →
        slice slab' a n = slice slab a n := by
  induction rs generalizing idx slab content with
  | nil =>
      cases h
      refine ⟨[], .nil, (List.append_nil _).symm, ?_, fun _ _ _ => rfl⟩
      intro i hi
      cases hi
  | cons r rs ih =>
      simp only [buildLoop, Option.bind_eq_bind, Option.bind_eq_some_iff] at h
      obtain ⟨p, hp, slab₁, hemit, hloop⟩ := h
      obtain ⟨hentry, hframe⟩ := emitRouteEntry_some hemit
      obtain ⟨parts, hparts, hcontent, hentries, hrest⟩ := ih hloop
      refine ⟨p :: parts, .cons hp hparts, ?_, ?_, ?_⟩
      · rw [hcontent, List.append_assoc, List.flatMap_cons]
      · intro i hi
        cases i with
        | zero =>
            -- the entries behind leave this one alone
            exact (readEntry_congr (hrest _ _ (.inl (by omega)))).trans hentry
        | succ i =>
            have hi' := hentries i (Nat.lt_of_succ_lt_succ hi)
            rw [List.length_append, Nat.add_assoc content.length, ← partOff_succ] at hi'
            rw [show idx + (i + 1) = idx + 1 + i by omega]
            exact hi'
      · intro a n ha
        rw [List.length_cons] at ha
        rw [hrest a n (by omega), hframe a n (by omega)]

/-! ## The slab in memory -/

def slabLen (sz : SlabSizes) (parts : List Part) : Nat :=
  sz.contentOff + (parts.flatMap Part.bytes).length

/-- A packaged slab with these parts at an address. -/
structure SlabAt (sz : SlabSizes) (parts : List Part) (mem : Nat → Byte) (s : Nat) : Prop where
  count : parts.length ≤ sz.maxRoutes
  magic : slice mem s 8 = magicV1
  rcount : loadLe mem (s + 12) 4 = parts.length
  entries : ∀ i (hi : i < parts.length),
    readEntry mem (s + (24 + i * 48)) = parts[i].entry (partOff parts i)
  content : slice mem (s + sz.contentOff) (parts.flatMap Part.bytes).length =
    parts.flatMap Part.bytes

variable {sz : SlabSizes} {parts : List Part}

theorem entry_le (h : parts.length ≤ sz.maxRoutes) {i : Nat} (hi : i < parts.length) :
    24 + i * 48 + 48 ≤ sz.contentOff := by
  rw [SlabSizes.contentOff]
  omega

theorem SlabAt.congr {mem mem' : Nat → Byte} {s s' : Nat} (h : SlabAt sz parts mem s)
    (heq : slice mem s (slabLen sz parts) = slice mem' s' (slabLen sz parts)) :
    SlabAt sz parts mem' s' := by
  have hoff : 24 ≤ sz.contentOff := Nat.le_add_right _ _
  have hle : sz.contentOff ≤ slabLen sz parts := Nat.le_add_right _ _
  refine ⟨h.count, ?_, ?_, ?_, ?_⟩
  · rw [← h.magic]
    exact (slice_part heq (show 0 + 8 ≤ _ by omega)).symm
  · rw [← h.rcount]
    exact (loadLe_congr (slice_part heq (by omega))).symm
  · intro i hi
    have := entry_le h.count hi
    rw [← h.entries i hi]
    exact (readEntry_congr (slice_part heq (by omega))).symm
  · have hcontent := slice_part heq (Nat.le_refl (slabLen sz parts))
    rw [← hcontent, h.content]

/-- **What `build_slab` makes.** -/
theorem buildSlab_some {routes : List Route} {slab : Nat → Byte}
    (h : buildSlab sz routes = some slab) :
    ∃ parts, List.Forall₂ (fun r p => encodeRoute r = some p) routes parts ∧
      slabLen sz parts ≤ sz.slabSize ∧ SlabAt sz parts slab 0 ∧
      loadLe slab 16 4 = (parts.flatMap Part.bytes).length := by
  rw [buildSlab] at h
  split at h
  · cases h
  rename_i hcount
  simp only [Option.bind_eq_bind, Option.bind_eq_some_iff] at h
  obtain ⟨_, hversion, _, hrcount, ⟨slab₁, content⟩, hloop, h⟩ := h
  obtain ⟨-, rfl⟩ := packInto_some hversion
  obtain ⟨hrbound, rfl⟩ := packInto_some hrcount
  obtain ⟨parts, hparts, hcontent, hentries, hframe⟩ := buildLoop_some hloop
  rw [List.nil_append] at hcontent
  subst hcontent
  dsimp only at h
  split at h
  · cases h
  rename_i hmax
  obtain ⟨_, hclen, hslab⟩ := Option.bind_eq_some_iff.mp h
  obtain ⟨hcbound, rfl⟩ := packInto_some hclen
  obtain rfl := Option.some.inj hslab
  have hlen : routes.length = parts.length := hparts.length_eq
  have hoff : sz.contentOff = 24 + sz.maxRoutes * 48 := rfl
  -- what the content and its length, written last, leave alone
  have hlast : ∀ a n, a + n ≤ 16 ∨ 20 ≤ a ∧ a + n ≤ sz.contentOff →
      slice (memWrite (storeLe slab₁ 16 4 (parts.flatMap Part.bytes).length) sz.contentOff
        (parts.flatMap Part.bytes)) a n = slice slab₁ a n := by
    intro a n ha
    rw [slice_memWrite_outside (by omega), slice_storeLe_outside (by omega)]
  refine ⟨parts, hparts, ?_, ⟨by omega, ?_, ?_, ?_, ?_⟩, ?_⟩
  · rw [slabLen, SlabSizes.slabSize]
    omega
  · rw [hlast 0 8 (by omega), hframe 0 8 (by omega), slice_storeLe_outside (by omega),
      slice_storeLe_outside (by omega)]
    exact slice_memWrite_self _ 0 magicV1
  · rw [loadLe_congr (hlast (0 + 12) 4 (by omega)), loadLe_congr (hframe (0 + 12) 4 (by omega)),
      loadLe_storeLe, Nat.mod_eq_of_lt hrbound, hlen]
  · intro i hi
    have hentry := hentries i hi
    rw [Nat.zero_add] at hentry ⊢
    rw [readEntry_congr (hlast (24 + i * 48) 48 (by omega)), hentry]
    rw [List.length_nil, Nat.zero_add]
  · rw [Nat.zero_add]
    exact slice_memWrite_self _ _ _
  · rw [loadLe_congr (slice_memWrite_outside (.inl (by omega))), loadLe_storeLe,
      Nat.mod_eq_of_lt hcbound]

/-- **A packaged image in memory** has a slab with the parts of the routes, and nothing behind its
content. -/
theorem package_slab {image out : List Byte} {routes : List Route}
    (h : package sz image routes = some out) :
    ∃ off parts, findSlabOffset sz image = some off ∧
      List.Forall₂ (fun r p => encodeRoute r = some p) routes parts ∧
      out.length = off + slabLen sz parts ∧ sz.contentOff < 2 ^ 32 ∧
      ∀ mem base, slice mem base out.length = out → SlabAt sz parts mem (base + off) := by
  rw [package, Option.bind_eq_bind, Option.bind_eq_some_iff] at h
  obtain ⟨off, hoff, h⟩ := h
  split at h
  · cases h
  rename_i hksize
  obtain ⟨slab, hslab, h⟩ := Option.bind_eq_some_iff.mp h
  obtain ⟨parts, hparts, hfits, hat, hclen⟩ := buildSlab_some hslab
  dsimp only at h
  rw [hclen, Nat.add_assoc, ← slabLen] at h
  have hsize : sz.slabSize < 2 ^ 32 := by
    rw [← not_not.mp hksize]
    exact loadLe_lt (byteAt image) (off + 20) 4
  have hlen : out.length = off + slabLen sz parts := by
    rw [← Option.some.inj h, slice_length]
  refine ⟨off, parts, hoff, hparts, hlen, Nat.lt_of_le_of_lt (Nat.le_add_right _ _) hsize, ?_⟩
  intro mem base hmem
  rw [hlen, ← Option.some.inj h] at hmem
  -- the image holds the slab, and memory the image
  have hwritten := slice_memWrite_self (byteAt image) off (slice slab 0 sz.slabSize)
  rw [slice_length] at hwritten
  have hslabPart := slice_part hwritten (show 0 + slabLen sz parts ≤ sz.slabSize by omega)
  have himage := slice_part hmem (Nat.le_refl (off + slabLen sz parts))
  rw [Nat.zero_add] at himage
  exact hat.congr (hslabPart.symm.trans himage.symm)

end WsPi5.Appliance
