/-
# `Lib.Chunked` — the chunked transfer coding of RFC 9112, section 7.1

    chunked-body     = *chunk last-chunk trailer-section CRLF
    chunk            = chunk-size [ chunk-ext ] CRLF chunk-data CRLF
    chunk-size       = 1*HEXDIG
    last-chunk       = 1*("0") [ chunk-ext ] CRLF
    trailer-section  = *( field-line CRLF )

`Chunked wire body` says that `wire` is a chunked body by this grammar and that `body` is what it
carries.  Of an extension the grammar here asks only what a reader that skips it relies on: it
begins with a semicolon or a blank, and stays on its line.  So there are more wires here than in
the RFC, and what is unique here is unique there.

**Proved here.**

    a wire carries one body, and no wire goes on where another ends   (`Chunked.unique`)
    the lower-case size without leading zeros is a chunk-size         (`chunkSize_lowerHex`)
-/
import WsPi5.Lib.Utf8

namespace Lib

/-! ## The grammar -/

/-- The value of a HEXDIG. -/
def hexVal (b : UInt8) : Option Nat :=
  if 0x30 ≤ b ∧ b ≤ 0x39 then some (b.toNat - 0x30)
  else if 0x41 ≤ b ∧ b ≤ 0x46 then some (b.toNat - 0x37)
  else if 0x61 ≤ b ∧ b ≤ 0x66 then some (b.toNat - 0x57)
  else none

def hexNat (ds : List UInt8) : Nat := ds.foldl (fun acc b => 16 * acc + (hexVal b).getD 0) 0

def lineEnd : List UInt8 := [0x0D, 0x0A]

def OnLine (l : List UInt8) : Prop := ∀ b ∈ l, b ≠ 0x0D ∧ b ≠ 0x0A

/-- `chunk-size` -/
structure ChunkSize (ds : List UInt8) (n : Nat) : Prop where
  some : ds ≠ []
  hex : ∀ b ∈ ds, (hexVal b).isSome = true
  value : hexNat ds = n

/-- `chunk-ext` -/
structure ChunkExt (ext : List UInt8) : Prop where
  line : OnLine ext
  first : ∀ b ∈ ext.head?, b = 0x3B ∨ b = 0x20 ∨ b = 0x09

/-- `trailer-section` -/
def trailerSection (fields : List (List UInt8)) : List UInt8 := fields.flatMap (· ++ lineEnd)

/-- `chunked-body`, and the data of its chunks. -/
inductive Chunked : List UInt8 → List UInt8 → Prop where
  | last {ds ext : List UInt8} {fields : List (List UInt8)} (hsize : ChunkSize ds 0)
      (hext : ChunkExt ext) (hfields : ∀ l ∈ fields, l ≠ [] ∧ OnLine l) :
      Chunked ((ds ++ ext) ++ lineEnd ++ (trailerSection fields ++ lineEnd)) []
  | chunk {ds ext data wire body : List UInt8} (hsize : ChunkSize ds data.length)
      (hext : ChunkExt ext) (hdata : data ≠ []) (hrest : Chunked wire body) :
      Chunked ((ds ++ ext) ++ lineEnd ++ (data ++ lineEnd ++ wire)) (data ++ body)

/-! ## One reading -/

section
variable {l l' x x' : List UInt8}

theorem line_unique (hl : OnLine l) (hl' : OnLine l') (h : l ++ lineEnd ++ x = l' ++ lineEnd ++ x') :
    l = l' ∧ x = x' := by
  induction l generalizing l' with
  | nil =>
      cases l' with
      | nil => exact ⟨rfl, List.append_cancel_left h⟩
      | cons b l' =>
          have hb : b = 0x0D := (List.cons.inj h).1.symm
          exact absurd hb (hl' b List.mem_cons_self).1
  | cons b l ih =>
      cases l' with
      | nil =>
          have hb : b = 0x0D := (List.cons.inj h).1
          exact absurd hb (hl b List.mem_cons_self).1
      | cons b' l' =>
          obtain ⟨hb, hrest⟩ := List.cons.inj h
          obtain ⟨hline, hx⟩ := ih (fun c hc => hl c (List.mem_cons_of_mem _ hc))
            (fun c hc => hl' c (List.mem_cons_of_mem _ hc)) hrest
          exact ⟨by rw [hb, hline], hx⟩

theorem hexVal_of_first {b : UInt8} (h : b = 0x3B ∨ b = 0x20 ∨ b = 0x09) : hexVal b = none := by
  rcases h with rfl | rfl | rfl <;> rfl

theorem size_unique {ds ds' ext ext' : List UInt8} {n n' : Nat} (hs : ChunkSize ds n)
    (hs' : ChunkSize ds' n') (he : ChunkExt ext) (he' : ChunkExt ext')
    (h : ds ++ ext = ds' ++ ext') : n = n' := by
  have hcut : ∀ {ds ext : List UInt8} {n : Nat}, ChunkSize ds n → ChunkExt ext →
      (ds ++ ext).takeWhile (fun b => (hexVal b).isSome) = ds := by
    intro ds ext n hs he
    rw [List.takeWhile_append_of_pos hs.hex]
    cases ext with
    | nil => exact List.append_nil ds
    | cons b ext =>
        have hb := hexVal_of_first (he.first b rfl)
        rw [List.takeWhile_cons_of_neg (by rw [hb]; exact Bool.false_ne_true), List.append_nil]
  have hds : ds = ds' := by
    rw [← hcut hs he, h, hcut hs' he']
  rw [← hs.value, hds, hs'.value]

theorem ChunkSize.onLine {ds : List UInt8} {n : Nat} (h : ChunkSize ds n) : OnLine ds := by
  intro b hb
  have hex := h.hex b hb
  refine ⟨?_, ?_⟩
  · rintro rfl
    cases hex
  · rintro rfl
    cases hex

theorem OnLine.append (hl : OnLine l) (hx : OnLine x) : OnLine (l ++ x) := by
  intro b hb
  rcases List.mem_append.mp hb with hb | hb
  · exact hl b hb
  · exact hx b hb

theorem trailer_unique {fs fs' : List (List UInt8)} (hf : ∀ l ∈ fs, l ≠ [] ∧ OnLine l)
    (hf' : ∀ l ∈ fs', l ≠ [] ∧ OnLine l)
    (h : trailerSection fs ++ lineEnd ++ x = trailerSection fs' ++ lineEnd ++ x') :
    fs = fs' ∧ x = x' := by
  have hnil : OnLine [] := fun _ hb => nomatch hb
  have hcons : ∀ (l : List UInt8) (fs : List (List UInt8)) (x : List UInt8),
      trailerSection (l :: fs) ++ lineEnd ++ x
        = l ++ lineEnd ++ (trailerSection fs ++ lineEnd ++ x) := by
    intro l fs x
    simp only [trailerSection, List.flatMap_cons, List.append_assoc]
  induction fs generalizing fs' with
  | nil =>
      cases fs' with
      | nil => exact ⟨rfl, List.append_cancel_left h⟩
      | cons l fs' =>
          obtain ⟨hne, hline⟩ := hf' l List.mem_cons_self
          rw [hcons] at h
          exact absurd (@line_unique [] _ _ _ hnil hline h).1.symm hne
  | cons l fs ih =>
      obtain ⟨hne, hline⟩ := hf l List.mem_cons_self
      cases fs' with
      | nil =>
          rw [hcons] at h
          exact absurd (@line_unique _ [] _ _ hline hnil h).1 hne
      | cons l' fs' =>
          rw [hcons, hcons] at h
          obtain ⟨hl, hrest⟩ := line_unique hline (hf' l' List.mem_cons_self).2 h
          obtain ⟨hfs, hx⟩ := ih (fun m hm => hf m (List.mem_cons_of_mem _ hm))
            (fun m hm => hf' m (List.mem_cons_of_mem _ hm)) hrest
          exact ⟨by rw [hl, hfs], hx⟩

end

/-- **The coding is unambiguous**: of two chunked bodies that begin the same bytes, the bodies are
the same and so is where they end. -/
theorem Chunked.unique {w w' b b' r r' : List UInt8} (h : Chunked w b) (h' : Chunked w' b')
    (heq : w ++ r = w' ++ r') : b = b' ∧ r = r' := by
  induction h generalizing w' b' with
  | @last ds ext fields hsize hext hfields =>
      cases h' with
      | @last ds' ext' fields' hsize' hext' hfields' =>
          rw [List.append_assoc, List.append_assoc _ _ r'] at heq
          obtain ⟨_, hrest⟩ := line_unique (hsize.onLine.append hext.line)
            (hsize'.onLine.append hext'.line) heq
          exact ⟨rfl, (trailer_unique hfields hfields' hrest).2⟩
      | @chunk ds' ext' data wire body hsize' hext' hdata hrest =>
          rw [List.append_assoc, List.append_assoc _ _ r'] at heq
          obtain ⟨hline, _⟩ := line_unique (hsize.onLine.append hext.line)
            (hsize'.onLine.append hext'.line) heq
          have hlen := size_unique hsize hsize' hext hext' hline
          exact absurd (List.eq_nil_of_length_eq_zero hlen.symm) hdata
  | @chunk ds ext data wire body hsize hext hdata hrest ih =>
      cases h' with
      | @last ds' ext' fields' hsize' hext' hfields' =>
          rw [List.append_assoc, List.append_assoc _ _ r'] at heq
          obtain ⟨hline, _⟩ := line_unique (hsize.onLine.append hext.line)
            (hsize'.onLine.append hext'.line) heq
          have hlen := size_unique hsize hsize' hext hext' hline
          exact absurd (List.eq_nil_of_length_eq_zero hlen) hdata
      | @chunk ds' ext' data' wire' body' hsize' hext' hdata' hrest' =>
          rw [List.append_assoc, List.append_assoc _ _ r'] at heq
          obtain ⟨hline, hafter⟩ := line_unique (hsize.onLine.append hext.line)
            (hsize'.onLine.append hext'.line) heq
          have hlen := size_unique hsize hsize' hext hext' hline
          simp only [List.append_assoc] at hafter
          obtain ⟨hsame, hafter⟩ := List.append_inj hafter hlen
          obtain ⟨hbody, hr⟩ := ih hrest' (List.append_cancel_left hafter)
          exact ⟨by rw [hsame, hbody], hr⟩

/-! ## Sizes in lower case -/

/-- `n` in lower-case hexadecimal digits, without leading zeros. -/
def lowerHex (n : Nat) : List UInt8 := (Nat.toDigits 16 n).map fun c => UInt8.ofNat c.toNat

def lowHexDigit (d : Nat) : UInt8 := UInt8.ofNat (Nat.digitChar d).toNat

theorem hexVal_lowHexDigit {d : Nat} (h : d < 16) : hexVal (lowHexDigit d) = some d := by
  have hall : ∀ d < 16, hexVal (lowHexDigit d) = some d := by decide
  exact hall d h

theorem lowerHex_digit {n : Nat} (h : n < 16) : lowerHex n = [lowHexDigit n] := by
  rw [lowerHex, Nat.toDigits_of_lt_base h]
  rfl

theorem lowerHex_step {n : Nat} (h : 16 ≤ n) :
    lowerHex n = lowerHex (n / 16) ++ [lowHexDigit (n % 16)] := by
  rw [lowerHex, Nat.toDigits_of_base_le (by decide) h, List.map_append]
  rfl

theorem hexNat_snoc (ds : List UInt8) {d : Nat} (h : d < 16) :
    hexNat (ds ++ [lowHexDigit d]) = 16 * hexNat ds + d := by
  rw [hexNat, List.foldl_append]
  simp only [List.foldl_cons, List.foldl_nil, hexVal_lowHexDigit h, Option.getD_some]
  rfl

theorem chunkSize_lowerHex (n : Nat) : ChunkSize (lowerHex n) n := by
  induction n using Nat.strongRecOn with
  | ind n ih =>
      by_cases hn : n < 16
      · rw [lowerHex_digit hn]
        refine ⟨List.cons_ne_nil _ _, ?_, ?_⟩
        · intro b hb
          rw [List.mem_singleton.mp hb, hexVal_lowHexDigit hn]
          rfl
        · have hsnoc := hexNat_snoc [] hn
          rw [List.nil_append] at hsnoc
          rw [hsnoc]
          exact Nat.zero_add n
      · have hlt : n % 16 < 16 := Nat.mod_lt _ (by decide)
        have hrest := ih (n / 16) (by omega)
        rw [lowerHex_step (by omega)]
        refine ⟨by simp, ?_, ?_⟩
        · intro b hb
          rcases List.mem_append.mp hb with hb | hb
          · exact hrest.hex b hb
          · rw [List.mem_singleton.mp hb, hexVal_lowHexDigit hlt]
            rfl
        · rw [hexNat_snoc _ hlt, hrest.value]
          omega

theorem lowerHex_first {n : Nat} (h : n ≠ 0) : (lowerHex n).head? ≠ some 0x30 := by
  induction n using Nat.strongRecOn with
  | ind n ih =>
      by_cases hn : n < 16
      · have hall : ∀ d < 16, d ≠ 0 → lowHexDigit d ≠ 0x30 := by decide
        rw [lowerHex_digit hn]
        exact fun heq => hall n hn h (Option.some.inj heq)
      · have hrest := ih (n / 16) (by omega) (by omega)
        rw [lowerHex_step (by omega), List.head?_append_of_ne_nil _ (chunkSize_lowerHex _).some]
        exact hrest

end Lib
