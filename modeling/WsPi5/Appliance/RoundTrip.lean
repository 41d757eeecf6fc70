/-
# `WsPi5.Appliance.RoundTrip` — from the list of routes to the entry that a request finds

    list of routes  --package-->  image  --load, boot-->  active table  --http_match_uri-->  entry

The slab that the packager writes (`SlabAt`) becomes a table whose entries are addresses
(`RoutesAt`); an entry of it serves its route (`Serves`), and hits exactly where a string is that
route's path (`Serves.hits_iff`).

An offset 0 is no address for a header or a body.  A body stands behind its header and a header
behind its path, so only one such offset can be 0: the header of the first route, where that
route's path is empty (`empty_first_path_loses_header`).  The paths of `collect_routes` start with
a slash.

**Proved here** (`appliance_round_trip`): if the first route's path is not empty, what
`http_match_uri` finds for any string is the first of the packaged routes that has it as its path,
with its path, header and body, all within the image; and nothing if there is none.
-/
import WsPi5.Appliance.Boot

namespace WsPi5.Appliance

open Lib

/-! ## The active table -/

/-- The slab after the loop: entries with addresses, and the content as it was. -/
structure RoutesAt (sz : SlabSizes) (parts : List Part) (mem : Nat → Byte) (s : Nat) : Prop where
  count : parts.length ≤ sz.maxRoutes
  entries : ∀ i (hi : i < parts.length), readEntry mem (s + 24 + i * 48) =
    (parts[i].entry (partOff parts i)).relocate (s + sz.contentOff)
  content : slice mem (s + sz.contentOff) (parts.flatMap Part.bytes).length =
    parts.flatMap Part.bytes

variable {sz : SlabSizes} {parts : List Part}

/-- **What `http_appliance_init` makes of a packaged slab.** -/
theorem httpApplianceInit_slab {mem : Nat → Byte} {s : Nat} (h : SlabAt sz parts mem s)
    (hoff : sz.contentOff < 2 ^ 32) (builtin builtinCount : Nat) :
    (httpApplianceInit sz s builtin builtinCount mem).active = s + 24 ∧
      (httpApplianceInit sz s builtin builtinCount mem).count = parts.length ∧
      RoutesAt sz parts (httpApplianceInit sz s builtin builtinCount mem).mem s := by
  have hmagic : loadLe mem s 8 = 0x494C504149505357 := by
    rw [loadLe, h.magic]
    decide
  rw [httpApplianceInit, if_neg (not_not_intro hmagic), Nat.mod_eq_of_lt hoff, h.rcount]
  obtain ⟨hentries, hframe⟩ := patchLoop_spec (s + 24) (s + sz.contentOff) parts.length 0 mem
  refine ⟨rfl, rfl, h.count, ?_, ?_⟩
  · intro i hi
    have hi' := hentries i hi
    rw [Nat.zero_add, Nat.add_assoc, h.entries i hi] at hi'
    rw [Nat.add_assoc]
    exact hi'
  · have hle : 24 + parts.length * 48 ≤ sz.contentOff := by
      have := h.count
      rw [SlabSizes.contentOff]
      omega
    exact (hframe _ _ (.inr (by omega))).trans h.content

theorem RoutesAt.congr {mem mem' : Nat → Byte} {s : Nat} (h : RoutesAt sz parts mem s)
    (heq : slice mem' s (slabLen sz parts) = slice mem s (slabLen sz parts)) :
    RoutesAt sz parts mem' s := by
  have hle : sz.contentOff ≤ slabLen sz parts := Nat.le_add_right _ _
  refine ⟨h.count, ?_, ?_⟩
  · intro i hi
    have := entry_le h.count hi
    rw [← h.entries i hi, Nat.add_assoc]
    exact readEntry_congr (slice_part heq (by omega))
  · exact (slice_part heq (Nat.le_refl (slabLen sz parts))).trans h.content

/-! ## What an entry serves -/

/-- The path of the route is this string of bytes. -/
def Route.Matches (r : Route) (u : List Byte) : Prop := encodeAscii r.path = some u

/-- The pointers and lengths of the entry are those of the route's path, header and body, which lie
between two addresses. -/
structure Serves (mem : Nat → Byte) (lo hi : Nat) (e : RouteEntry) (r : Route) : Prop where
  path : encodeAscii r.path = some (slice mem e.pathPtr e.pathLen)
  hdr : buildHeader r.body.length r.mime = some (slice mem e.hdrPtr e.hdrLen)
  body : slice mem e.bodyPtr e.bodyLen = r.body
  pathIn : lo ≤ e.pathPtr ∧ e.pathPtr + e.pathLen ≤ hi
  hdrIn : lo ≤ e.hdrPtr ∧ e.hdrPtr + e.hdrLen ≤ hi
  bodyIn : lo ≤ e.bodyPtr ∧ e.bodyPtr + e.bodyLen ≤ hi

theorem encodeRoute_some {r : Route} {p : Part} (h : encodeRoute r = some p) :
    encodeAscii r.path = some p.path ∧ buildHeader r.body.length r.mime = some p.hdr ∧
      p.body = r.body := by
  rw [encodeRoute, Option.bind_eq_bind, Option.bind_eq_some_iff] at h
  obtain ⟨path, hpath, h⟩ := h
  split at h
  · cases h
  obtain ⟨hdr, hhdr, h⟩ := Option.bind_eq_some_iff.mp h
  cases h
  exact ⟨hpath, hhdr, rfl⟩

theorem encodeAscii_length {s : String} {bs : List Byte} (h : encodeAscii s = some bs) :
    bs.length = s.length := by
  rw [encodeAscii] at h
  split at h
  · rw [← Option.some.inj h, ascii, List.length_map, String.length_toList]
  · cases h

theorem buildHeader_pos {n : Nat} {mime : String} {hdr : List Byte}
    (h : buildHeader n mime = some hdr) : 0 < hdr.length := by
  rw [encodeAscii_length h]
  simp only [String.length_append]
  have : 0 < ("\r\n\r\n" : String).length := by decide
  omega

theorem partOff_parts {i : Nat} (hi : i < parts.length) :
    ∃ front back, parts.flatMap Part.bytes = front ++ (parts[i].bytes ++ back) ∧
      front.length = partOff parts i := by
  refine ⟨(parts.take i).flatMap Part.bytes, (parts.drop (i + 1)).flatMap Part.bytes, ?_, rfl⟩
  rw [← List.flatMap_cons, ← List.drop_eq_getElem_cons hi, ← List.flatMap_append,
    List.take_append_drop]

theorem RoutesAt.part {mem : Nat → Byte} {s i : Nat} (h : RoutesAt sz parts mem s)
    (hi : i < parts.length) {c : Nat} (hc : c = s + sz.contentOff + partOff parts i) :
    slice mem c parts[i].path.length = parts[i].path ∧
      slice mem (c + parts[i].path.length) parts[i].hdr.length = parts[i].hdr ∧
      slice mem (c + parts[i].path.length + parts[i].hdr.length) parts[i].body.length =
        parts[i].body ∧
      partOff parts i + parts[i].bytes.length ≤ (parts.flatMap Part.bytes).length := by
  obtain ⟨front, back, hparts, hfront⟩ := partOff_parts hi
  have hcontent := h.content
  rw [hparts] at hcontent ⊢
  obtain ⟨-, hrest⟩ := slice_append hcontent
  obtain ⟨hbytes, -⟩ := slice_append hrest
  rw [hfront, ← hc] at hbytes
  obtain ⟨hpath, hbytes⟩ := slice_append hbytes
  obtain ⟨hhdr, hbody⟩ := slice_append hbytes
  refine ⟨hpath, hhdr, hbody, ?_⟩
  rw [List.length_append, List.length_append, hfront]
  omega

theorem Part.relocate_entry {p : Part} {off x21 : Nat} (hhdr : 0 < off + p.path.length)
    (hfit : x21 + (off + p.path.length + p.hdr.length) < 2 ^ 64) :
    (p.entry off).relocate x21 = ⟨p.path.length, p.body.length, x21 + off,
      x21 + off + p.path.length + p.hdr.length, x21 + off + p.path.length, p.hdr.length⟩ := by
  rw [RouteEntry.relocate, RouteEntry.mk.injEq]
  refine ⟨rfl, rfl, ?_, ?_, ?_, rfl⟩
  · show (off + x21) % 2 ^ 64 = x21 + off
    omega
  · show (if off + p.path.length + p.hdr.length = 0 then 0
      else (off + p.path.length + p.hdr.length + x21) % 2 ^ 64) = _
    rw [if_neg (by omega)]
    omega
  · show (if off + p.path.length = 0 then 0 else (off + p.path.length + x21) % 2 ^ 64) = _
    rw [if_neg (by omega)]
    omega

/-- **An entry of the active table serves its route.** -/
theorem RoutesAt.serves {mem : Nat → Byte} {s i : Nat} (h : RoutesAt sz parts mem s)
    (hi : i < parts.length) {r : Route} (hr : encodeRoute r = some parts[i])
    (hhdr : 0 < partOff parts i + parts[i].path.length)
    (hfit : s + slabLen sz parts < 2 ^ 64) :
    Serves mem s (s + slabLen sz parts) (readEntry mem (s + 24 + i * 48)) r := by
  obtain ⟨hpath, hhead, hbody⟩ := encodeRoute_some hr
  obtain ⟨hpathAt, hhdrAt, hbodyAt, hend⟩ := h.part hi rfl
  rw [Part.bytes_length] at hend
  rw [slabLen] at hfit ⊢
  rw [h.entries i hi, Part.relocate_entry hhdr (by omega)]
  refine ⟨?_, ?_, ?_, ⟨?_, ?_⟩, ⟨?_, ?_⟩, ⟨?_, ?_⟩⟩
  · rw [hpathAt, hpath]
  · rw [hhdrAt, hhead]
  · rw [hbodyAt, hbody]
  all_goals
    dsimp only
    omega

theorem Serves.hits_iff {mem : Nat → Byte} {lo hi p x0 : Nat} {w1 : W} {r : Route}
    (h : Serves mem lo hi (readEntry mem p) r) :
    Hits mem x0 w1 p ↔ r.Matches (slice mem x0 w1.toNat) := by
  rw [Hits, Route.Matches, h.path, Option.some.injEq]
  constructor
  · rintro ⟨hlen, hbytes⟩
    rw [hlen, hbytes]
  · intro hbytes
    have hlen := congrArg List.length hbytes
    rw [slice_length, slice_length] at hlen
    rw [hlen] at hbytes
    exact ⟨hlen, hbytes⟩

/-- The first route keeps its header's pointer only if its path is not empty; the others do. -/
theorem hdrOff_pos {routes : List Route}
    (hparts : List.Forall₂ (fun r p => encodeRoute r = some p) routes parts)
    (hfirst : ∀ r ∈ routes.head?, r.path ≠ "") {i : Nat} (hi : i < parts.length) :
    0 < partOff parts i + parts[i].path.length := by
  cases hparts with
  | nil => cases hi
  | cons hr hrest =>
      rename_i r p rs ps
      obtain ⟨hpath, hhead, -⟩ := encodeRoute_some hr
      cases i with
      | zero =>
          have hne := hfirst r rfl
          have hlen := encodeAscii_length hpath
          have hpos : 0 < r.path.length := by
            rcases Nat.eq_zero_or_pos r.path.length with hzero | hpos
            · exact absurd (String.length_eq_zero_iff.mp hzero) hne
            · exact hpos
          show 0 < partOff (p :: ps) 0 + p.path.length
          omega
      | succ i =>
          have hpos := buildHeader_pos hhead
          have hbytes := p.bytes_length
          rw [partOff_succ]
          omega

/-- **The round trip.**  An image is packaged, loaded at `base` and booted; later the slab is as it
was then.  Whatever bytes `http_match_uri` is given, it finds the first route that has them as its
path, if there is one, and that route's path, header and body, within the image. -/
theorem appliance_round_trip {image out : List Byte} {routes : List Route} {off : Nat}
    (hout : package sz image routes = some out) (hoff : findSlabOffset sz image = some off)
    (hfirst : ∀ r ∈ routes.head?, r.path ≠ "") {base : Nat} {mem mem' : Nat → Byte}
    (hbase : base + out.length < 2 ^ 64) (hmem : slice mem base out.length = out)
    {builtin builtinCount : Nat} {st : RouteState}
    (hst : st = httpApplianceInit sz (base + off) builtin builtinCount mem)
    (hlater : slice mem' (base + off) (out.length - off) =
      slice st.mem (base + off) (out.length - off)) (x0 : Nat) (w1 : W) :
    let found := httpMatchUri { st with mem := mem' } x0 w1
    let u := slice mem' x0 w1.toNat
    (∀ i (hi : i < routes.length), routes[i].Matches u →
        (∀ j (hj : j < i), ¬routes[j].Matches u) →
        found = base + off + 24 + i * 48 ∧
          Serves mem' base (base + out.length) (readEntry mem' found) routes[i]) ∧
      ((∀ r ∈ routes, ¬r.Matches u) → found = 0) := by
  obtain ⟨off', parts, hoff', hparts, hlen, hcontent, hat⟩ := package_slab hout
  obtain rfl : off' = off := Option.some.inj (hoff'.symm.trans hoff)
  obtain ⟨hactive, hcount, hroutes⟩ :=
    httpApplianceInit_slab (hat mem base hmem) hcontent builtin builtinCount
  rw [← hst] at hactive hcount hroutes
  rw [hlen, Nat.add_sub_cancel_left] at hlater
  have hnow := hroutes.congr hlater
  have hcountEq : routes.length = parts.length := hparts.length_eq
  have hserves : ∀ i (hi : i < routes.length), Serves mem' (base + off')
      (base + off' + slabLen sz parts) (readEntry mem' (base + off' + 24 + i * 48)) routes[i] := by
    intro i hi
    have hi' : i < parts.length := by omega
    exact hnow.serves hi' (hparts.get hi hi') (hdrOff_pos hparts hfirst hi') (by omega)
  have hfound : httpMatchUri { st with mem := mem' } x0 w1 =
      matchScan mem' x0 w1 routes.length (base + off' + 24) := by
    rw [httpMatchUri, hactive, hcount, hcountEq]
  dsimp only
  rw [hfound]
  constructor
  · intro i hi hmatch hbefore
    have hscan : matchScan mem' x0 w1 routes.length (base + off' + 24) =
        base + off' + 24 + i * 48 := by
      refine matchScan_found hi ((hserves i hi).hits_iff.mpr hmatch) ?_
      intro j hj hhit
      exact hbefore j hj ((hserves j (Nat.lt_trans hj hi)).hits_iff.mp hhit)
    rw [hscan]
    obtain ⟨hpath, hhdr, hbody, hpathIn, hhdrIn, hbodyIn⟩ := hserves i hi
    exact ⟨rfl, hpath, hhdr, hbody, by omega, by omega, by omega⟩
  · intro hnone
    apply matchScan_none
    intro j hj hhit
    exact hnone routes[j] (List.getElem_mem hj) ((hserves j hj).hits_iff.mp hhit)

/-! ## Two small images -/

def demoSizes : SlabSizes := ⟨3, 242⟩

def demoImage : List Byte :=
  magicNone ++ List.replicate 12 0 ++ leBytes 4 demoSizes.slabSize ++
    List.replicate (demoSizes.slabSize - 24) 0

theorem demoImage_offset : findSlabOffset demoSizes demoImage = some 0 := by decide +kernel

/-- The image at 0x80000, and a string at 0. -/
def demoMem (out text : List Byte) : Nat → Byte :=
  memWrite (memWrite (fun _ => 0) 0x80000 out) 0 text

def demoBoot (out text : List Byte) : RouteState :=
  httpApplianceInit demoSizes 0x80000 0 0 (demoMem out text)

def demoRoot : Route := ⟨"/", [0x41], "text/css"⟩

def demoPage : Route := ⟨"/a", [0x42, 0x43], "text/css"⟩

/-- Three routes, the last with the path of the first. -/
def demoRoutes : List Route := [demoRoot, demoPage, ⟨"/", [0x44], "text/css"⟩]

/-- The bytes `/a` at 0 are a path, and so is the first of them, and the last is none. -/
theorem appliance_round_trip_demo :
    ∃ out, package demoSizes demoImage demoRoutes = some out ∧
      let st := { demoBoot out [] with mem := memWrite (demoBoot out []).mem 0 (ascii "/a") }
      Serves st.mem 0x80000 (0x80000 + out.length) (readEntry st.mem (httpMatchUri st 0 1)) demoRoot ∧
      Serves st.mem 0x80000 (0x80000 + out.length) (readEntry st.mem (httpMatchUri st 0 2)) demoPage ∧
      httpMatchUri st 1 1 = 0 := by
  have hrun : (package demoSizes demoImage demoRoutes).map List.length = some 410 := by
    rw [package, demoImage_offset]
    decide +kernel
  obtain ⟨out, hout, hlen⟩ := Option.map_eq_some_iff.mp hrun
  have hmem : slice (demoMem out []) 0x80000 out.length = out := slice_memWrite_self _ _ _
  have hfirst : ∀ r ∈ demoRoutes.head?, r.path ≠ "" := by
    intro r hr
    obtain rfl : demoRoot = r := Option.some.inj hr
    decide
  have hboot : demoBoot out [] = httpApplianceInit demoSizes (0x80000 + 0) 0 0 (demoMem out []) :=
    rfl
  have hlater : slice (memWrite (demoBoot out []).mem 0 (ascii "/a")) (0x80000 + 0)
      (out.length - 0) = slice (demoBoot out []).mem (0x80000 + 0) (out.length - 0) :=
    slice_memWrite_outside (.inr (by decide))
  have hfinds := appliance_round_trip hout demoImage_offset hfirst
    (by rw [hlen]; decide) hmem hboot hlater
  have hboth : slice (memWrite (demoBoot out []).mem 0 (ascii "/a")) 0 2 = ascii "/a" :=
    slice_memWrite_self _ _ _
  refine ⟨out, hout, ?_⟩
  generalize memWrite (demoBoot out []).mem 0 (ascii "/a") = mem at hfinds hboth ⊢
  have hslash : slice mem 0 1 = ascii "/" := by
    rw [← slice_take mem 0 (show 1 ≤ 2 by decide), hboth]
    rfl
  have hlast : slice mem (0 + 1) (2 - 1) = ascii "a" := by
    rw [← slice_drop mem 0 (show 1 ≤ 2 by decide), hboth]
    rfl
  obtain ⟨hfound, -⟩ := hfinds 0 1
  obtain ⟨hfound₂, -⟩ := hfinds 0 2
  obtain ⟨-, hnone⟩ := hfinds 1 1
  have hroot : demoRoot.Matches (slice mem 0 1) := by
    rw [hslash]
    show encodeAscii "/" = some (ascii "/")
    decide
  have hpage : demoPage.Matches (slice mem 0 2) := by
    rw [hboth]
    show encodeAscii "/a" = some (ascii "/a")
    decide
  have hbefore : ¬demoRoot.Matches (slice mem 0 2) := by
    rw [hboth]
    show ¬encodeAscii "/" = some (ascii "/a")
    decide
  have hother : ∀ r ∈ demoRoutes, ¬r.Matches (slice mem (0 + 1) (2 - 1)) := by
    rw [hlast]
    show ∀ r ∈ demoRoutes, ¬encodeAscii r.path = some (ascii "a")
    decide
  obtain ⟨-, hserves⟩ := hfound 0 (by decide) hroot fun j hj => absurd hj (Nat.not_lt_zero j)
  obtain ⟨-, hserves₂⟩ := hfound₂ 1 (by decide) hpage fun j hj => by
    obtain rfl := Nat.lt_one_iff.mp hj
    exact hbefore
  exact ⟨hserves, hserves₂, hnone hother⟩

def demoEmpty : Route := ⟨"", [], "text/css"⟩

/-- **An empty path in front** is found, but its header's offset is 0 and stays so. -/
theorem empty_first_path_loses_header :
    ∃ out, package demoSizes demoImage [demoEmpty] = some out ∧
      httpMatchUri (demoBoot out []) 0 0 = 0x80000 + 24 ∧
      (readEntry (demoBoot out []).mem (0x80000 + 24)).hdrPtr = 0 ∧
      ¬Serves (demoBoot out []).mem 0x80000 (0x80000 + out.length)
        (readEntry (demoBoot out []).mem (0x80000 + 24)) demoEmpty := by
  have hrun : (package demoSizes demoImage [demoEmpty]).map
      (fun out => (httpMatchUri (demoBoot out []) 0 0,
        (readEntry (demoBoot out []).mem (0x80000 + 24)).hdrPtr)) = some (0x80000 + 24, 0) := by
    rw [package, demoImage_offset]
    decide +kernel
  obtain ⟨out, hout, hrun⟩ := Option.map_eq_some_iff.mp hrun
  obtain ⟨hfound, hzero⟩ := Prod.mk.inj hrun
  refine ⟨out, hout, hfound, hzero, ?_⟩
  intro hserves
  have hle := hserves.hdrIn.1
  rw [hzero] at hle
  exact absurd hle (by decide)

end WsPi5.Appliance
