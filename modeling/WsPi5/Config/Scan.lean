/-
# `WsPi5.Config.Scan` — the boot parser's cursor against the lines of the file

`config_parse` moves a cursor over bytes and stops at four kinds of byte.  In the bytes of a text
without NUL, the line scan stops at the line feeds only.

    the loop is one `readLine` for each line of the text                    (`loop_lines`)
    a first line without a character above `~` is blank, found or other     (`start_line`)
    a first line with such a character is never passed                      (`start_high`)

The last is the scan of `_check_magic`, which ends a line at any byte above 0x7E: where the magic
line has such a byte in its comment, the parse goes on at that byte, and no line starts with it.
-/
import WsPi5.Config.Lines

namespace WsPi5.ConfigParser

open Lib (cutComment trim partitionAt utf8 latin)

/-! ## Lines and their bytes -/

/-- A line of a text without NUL. -/
def LineOk (l : List Char) : Prop := '\n' ∉ l ∧ '\x00' ∉ l

def joined (ls : List (List Char)) : List Char := ['\n'].intercalate ls

theorem utf8_joined (l l' : List Char) (ls : List (List Char)) :
    utf8 (joined (l :: l' :: ls)) = utf8 l ++ 0x0A :: utf8 (joined (l' :: ls)) := by
  rw [joined, List.intercalate_cons_cons, Lib.utf8_append, Lib.utf8_append, List.append_assoc]
  rfl

theorem LineOk.noEnd {l : List Char} (h : LineOk l) : ∀ b ∈ utf8 l, endsLine b = false := by
  intro b hb
  simp only [endsLine, Bool.or_eq_false_iff, beq_eq_false_iff_ne]
  refine ⟨⟨?_, ?_⟩, ?_⟩ <;> rintro rfl
  · exact h.1 (Lib.latin_mem (by decide) hb)
  · exact h.2 (Lib.latin_mem (by decide) hb)
  · exact absurd (Lib.utf8_lt hb) (by decide)

theorem scan_append {p : Byte → Bool} {xs tail : List Byte} (hxs : ∀ b ∈ xs, p b = false)
    (htail : ∀ b rest, tail = b :: rest → p b = true) :
    (xs ++ tail).takeWhile (fun b => !p b) = xs ∧
      (xs ++ tail).dropWhile (fun b => !p b) = tail := by
  have hpos : ∀ b ∈ xs, (!p b) = true := fun b hb => by simp [hxs b hb]
  rw [List.takeWhile_append_of_pos hpos, List.dropWhile_append_of_pos hpos]
  cases tail with
  | nil => simp
  | cons b rest => simp [htail b rest rfl]

/-! ## The loop -/

theorem loop_nil (n : Nat) (p : PState) : loop n p [] = finish p := by
  cases n <;> rfl

theorem loop_cons (n : Nat) (p : PState) (b : Byte) (bs : List Byte) :
    loop (n + 1) p (b :: bs) =
      match parseLine p (b :: bs) with
      | .ok (p', rest') => loop n p' rest'
      | .error e => checkSoftEof p e := rfl

def readLines : PState → List (List Byte) → Option ConfErr × NetLabels
  | p, [] => finish p
  | p, l :: ls =>
      match readLine p.seen l with
      | .ok e => readLines (p.enter e) ls
      | .error err => checkSoftEof p err

theorem parseLine_scan {l : List Char} (h : LineOk l) (p : PState) (tail : List Byte)
    (htail : ∀ b rest, tail = b :: rest → endsLine b = true) :
    parseLine p (utf8 l ++ tail)
      = (readLine p.seen (utf8 l)).map fun e => (p.enter e, advance tail) := by
  obtain ⟨htake, hdrop⟩ := scan_append h.noEnd htail
  rw [parseLine, htake, hdrop]

/-- **The loop reads line by line**, whatever turns are left over. -/
theorem loop_lines : ∀ (ls : List (List Char)) (l : List Char), (∀ l' ∈ l :: ls, LineOk l') →
    ∀ (n : Nat) (p : PState), (utf8 (joined (l :: ls))).length ≤ n →
      loop n p (utf8 (joined (l :: ls))) = readLines p ((l :: ls).map utf8) := by
  intro ls
  induction ls with
  | nil =>
      intro l hls n p hn
      have hline := hls l List.mem_cons_self
      have hbytes : utf8 (joined [l]) = utf8 l := by rw [joined, List.intercalate_singleton]
      rw [hbytes] at hn ⊢
      cases hl : utf8 l with
      | nil => simp [loop_nil, readLines, readLine, PState.enter, hl, cutComment, trim, seenAfter,
          storeEntry]
      | cons b bs =>
          obtain ⟨m, rfl⟩ : ∃ m, n = m + 1 := ⟨n - 1, by simp [hl] at hn; omega⟩
          have hscan := parseLine_scan hline p [] (by simp)
          rw [List.append_nil, hl] at hscan
          rw [loop_cons, hscan]
          simp only [List.map_cons, List.map_nil, readLines, hl]
          cases readLine p.seen (b :: bs) with
          | error e => rfl
          | ok e => exact loop_nil m _
  | cons l' ls ih =>
      intro l hls n p hn
      have hline := hls l List.mem_cons_self
      have hrest : ∀ l'' ∈ l' :: ls, LineOk l'' := fun l'' h => hls l'' (List.mem_cons_of_mem _ h)
      rw [utf8_joined] at hn ⊢
      rw [List.length_append, List.length_cons] at hn
      obtain ⟨m, rfl⟩ : ∃ m, n = m + 1 := ⟨n - 1, by omega⟩
      have hscan := parseLine_scan hline p (0x0A :: utf8 (joined (l' :: ls)))
        (fun b rest heq => by rw [← (List.cons.inj heq).1]; rfl)
      obtain ⟨b, bs, hb⟩ : ∃ b bs, utf8 l ++ 0x0A :: utf8 (joined (l' :: ls)) = b :: bs :=
        List.exists_cons_of_ne_nil (by simp)
      rw [hb] at hscan ⊢
      rw [loop_cons, hscan, List.map_cons, readLines]
      cases readLine p.seen (utf8 l) with
      | error e => rfl
      | ok e => exact ih l' hrest m _ (by omega)

/-! ## The search for the magic line -/

/-- `config_parse` from the search on, with `n` turns. -/
def start (net : NetLabels) (n : Nat) (file : List Byte) : Option ConfErr × NetLabels :=
  match checkMagic n file with
  | none => (some .magic, net)
  | some rest => loop rest.length ⟨0, net⟩ rest

/-- A character that ends the scan for the magic line. -/
def isHigh (c : Char) : Bool := 0x7E < c.toNat

theorem utf8_low {l : List Char} (h : LineOk l) (hlow : ∀ c ∈ l, isHigh c = false) :
    ∀ b ∈ utf8 l, endsMagic b = false := by
  induction l with
  | nil => intro b hb; cases hb
  | cons c l ih =>
      intro b hb
      have hc : c.toNat ≤ 0x7E := by simpa [isHigh] using hlow c List.mem_cons_self
      rw [Lib.utf8_cons, Lib.encode_ascii (by omega), List.singleton_append, List.mem_cons] at hb
      rcases hb with rfl | hb
      · obtain ⟨hnl, hnul⟩ := h
        have hlatin : latin (UInt8.ofNat c.toNat) = c := Lib.latin_ofNat (by omega)
        have hle : UInt8.ofNat c.toNat ≤ 0x7E := by
          rw [UInt8.le_iff_toNat_le, UInt8.toNat_ofNat_of_lt' (Nat.lt_of_le_of_lt hc (by decide))]
          exact hc
        simp only [endsMagic, Bool.or_eq_false_iff, beq_eq_false_iff_ne, decide_eq_false_iff_not,
          UInt8.not_lt]
        refine ⟨⟨fun heq => hnl ?_, fun heq => hnul ?_⟩, hle⟩
        · rw [heq] at hlatin
          rw [← hlatin]
          exact List.mem_cons_self
        · rw [heq] at hlatin
          rw [← hlatin]
          exact List.mem_cons_self
      · refine ih ⟨fun hm => h.1 (List.mem_cons_of_mem _ hm), fun hm => h.2 (List.mem_cons_of_mem _ hm)⟩
          (fun c' hc' => hlow c' (List.mem_cons_of_mem _ hc')) b hb

theorem checkMagic_cons (n : Nat) (b : Byte) (bs : List Byte) :
    checkMagic (n + 1) (b :: bs) =
      match readMagic ((b :: bs).takeWhile fun b => !endsMagic b),
          (b :: bs).dropWhile fun b => !endsMagic b with
      | .blank, [] => none
      | .blank, b :: after => if b = 0 ∨ 0x7E < b then none else checkMagic n after
      | .found, [] => some []
      | .found, b :: after => some (if b = 0x0A then after else b :: after)
      | .other, _ => none := rfl

/-- **A first line without a high character**, and another line after it. -/
theorem start_line {l : List Char} (h : LineOk l) (hlow : ∀ c ∈ l, isHigh c = false)
    (net : NetLabels) (n : Nat) (rest : List Byte) :
    start net (n + 1) (utf8 l ++ 0x0A :: rest) =
      match readMagic (utf8 l) with
      | .blank => start net n rest
      | .found => loop rest.length ⟨0, net⟩ rest
      | .other => (some .magic, net) := by
  obtain ⟨htake, hdrop⟩ := @scan_append endsMagic _ (0x0A :: rest) (utf8_low h hlow)
    (fun b rest heq => by rw [← (List.cons.inj heq).1]; rfl)
  obtain ⟨b, bs, hb⟩ : ∃ b bs, utf8 l ++ 0x0A :: rest = b :: bs :=
    List.exists_cons_of_ne_nil (by simp)
  rw [hb] at htake hdrop ⊢
  rw [start, checkMagic_cons, htake, hdrop]
  cases readMagic (utf8 l) <;> rfl

theorem start_last {l : List Char} (h : LineOk l) (hlow : ∀ c ∈ l, isHigh c = false)
    (net : NetLabels) {n : Nat} (hn : (utf8 l).length ≤ n) :
    start net n (utf8 l) =
      match readMagic (utf8 l) with
      | .blank => (some .magic, net)
      | .found => finish ⟨0, net⟩
      | .other => (some .magic, net) := by
  cases hl : utf8 l with
  | nil => cases n <;> rfl
  | cons b bs =>
      obtain ⟨m, rfl⟩ : ∃ m, n = m + 1 := ⟨n - 1, by simp [hl] at hn; omega⟩
      obtain ⟨htake, hdrop⟩ := @scan_append endsMagic _ [] (utf8_low h hlow) (by simp)
      rw [List.append_nil, hl] at htake hdrop
      rw [start, checkMagic_cons, htake, hdrop]
      cases readMagic (b :: bs) <;> rfl

theorem high_spec {b : Byte} (h : 0x7E < b) :
    isHash b = false ∧ isWs b = false ∧ isBlank b = false ∧ isEq b = false ∧ ¬b ≤ 0x7E :=
  Lib.byte_all (p := fun b => 0x7E < b → isHash b = false ∧ isWs b = false ∧ isBlank b = false ∧
    isEq b = false ∧ ¬b ≤ 0x7E) (by decide +kernel) b h

theorem name_graphic (k : ConfKey) : ∀ b ∈ utf8 k.name, Graphic b := by
  have hcase : ∀ b ∈ utf8 k.name, 0x21 ≤ b ∧ b ≤ 0x7E := by
    cases k <;> exact Lib.list_all (by decide)
  exact hcase

theorem readLine_high {b : Byte} (hb : 0x7E < b) (bs : List Byte) (seen : W) :
    ∃ e, readLine seen (b :: bs) = .error e := by
  obtain ⟨hhash, hws, hblank, heq, hbig⟩ := high_spec hb
  obtain ⟨ys, hys⟩ := Lib.trim_cons (cutComment isHash isWs (isWs b) bs) hws
  simp only [readLine, Lib.cutComment_cons bs hhash, hys, reduceCtorEq, if_false,
    Lib.partitionAt_cons ys heq]
  cases hpart : partitionAt isEq ys with
  | none => exact ⟨.line, rfl⟩
  | some kv =>
      obtain ⟨key, value⟩ := kv
      obtain ⟨zs, hzs⟩ := Lib.trim_cons key hblank
      have hlook : lookupKey (b :: zs) = none := by
        cases hk : lookupKey (b :: zs) with
        | none => rfl
        | some k =>
            have hmem : b ∈ utf8 k.name := by
              rw [← lookupKey_some hk]
              exact List.mem_cons_self
            exact absurd (name_graphic k b hmem).2 hbig
      simp only [Option.map_some, hzs, hlook]
      exact ⟨.key, rfl⟩

theorem not_complete_init (net : NetLabels) : (⟨0, net⟩ : PState).complete = false := by
  have hmask : ((0 : W) &&& requiredMask == requiredMask) = false ∧
      ((0 : W) &&& 0x08 == 0x08) = false := by decide
  unfold PState.complete
  split
  · exact hmask.1
  · exact hmask.2

theorem encode_isHigh {c : Char} (h : isHigh c = true) :
    ∃ b bs, String.utf8EncodeChar c = b :: bs ∧ 0x7E < b ∧ endsLine b = false := by
  have hc : 0x7E < c.toNat := by simpa [isHigh] using h
  obtain ⟨b, bs, hb⟩ := List.exists_cons_of_ne_nil (String.utf8EncodeChar_ne_nil (c := c))
  have hspec : 0x7E < b.toNat ∧ b.toNat < 255 := by
    rcases Nat.lt_or_ge c.toNat 128 with hlt | hge
    · rw [Lib.encode_ascii hlt] at hb
      rw [← (List.cons.inj hb).1, UInt8.toNat_ofNat_of_lt' (Nat.lt_of_lt_of_le hlt (by decide))]
      omega
    · have hhigh := Lib.encode_high hge b (by rw [hb]; exact List.mem_cons_self)
      omega
  refine ⟨b, bs, hb, UInt8.lt_iff_toNat_lt.mpr hspec.1, ?_⟩
  simp only [endsLine, Bool.or_eq_false_iff, beq_eq_false_iff_ne]
  refine ⟨⟨?_, ?_⟩, ?_⟩ <;> rintro rfl <;> revert hspec <;> decide

/-- **A first line with a high character** ends the parse. -/
theorem start_high {l : List Char} (h : LineOk l) (hhigh : ∃ c ∈ l, isHigh c = true)
    (net : NetLabels) (n : Nat) (tail : List Byte) : (start net n (utf8 l ++ tail)).1 ≠ none := by
  obtain ⟨c, hc⟩ := Option.isSome_iff_exists.mp (List.find?_isSome.mpr hhigh)
  obtain ⟨hcHigh, l₁, l₂, rfl, hlow⟩ := List.find?_eq_some_iff_append.mp hc
  obtain ⟨b, bs, hb, hbig, hend⟩ := encode_isHigh hcHigh
  have hl₁ : LineOk l₁ :=
    ⟨fun hm => h.1 (List.mem_append_left _ hm), fun hm => h.2 (List.mem_append_left _ hm)⟩
  obtain ⟨more, hmore⟩ : ∃ more, utf8 (l₁ ++ c :: l₂) ++ tail = utf8 l₁ ++ b :: more :=
    ⟨bs ++ (utf8 l₂ ++ tail), by simp [hb]⟩
  have hstop : endsMagic b = true := by simp [endsMagic, hbig]
  obtain ⟨htake, hdrop⟩ := @scan_append endsMagic _ (b :: more)
    (utf8_low hl₁ fun c' hc' => by simpa using hlow c' hc')
    (fun b' rest heq => by rw [← (List.cons.inj heq).1]; exact hstop)
  -- from that byte on there is a line that is refused
  have hloop : (loop (b :: more).length ⟨0, net⟩ (b :: more)).1 ≠ none := by
    have htake' : (b :: more).takeWhile (fun b => !endsLine b)
        = b :: more.takeWhile fun b => !endsLine b := by simp [hend]
    obtain ⟨e, he⟩ := readLine_high hbig (more.takeWhile fun b => !endsLine b) 0
    have hsoft : checkSoftEof ⟨0, net⟩ e = (some e, net) :=
      if_neg fun hc => absurd hc.2 (by rw [not_complete_init]; exact Bool.false_ne_true)
    rw [List.length_cons, loop_cons, parseLine, htake', he]
    show (checkSoftEof ⟨0, net⟩ e).1 ≠ none
    rw [hsoft]
    exact Option.some_ne_none e
  have hnl : b ≠ 0x0A := by
    rintro rfl
    exact absurd hbig (by decide)
  rw [hmore]
  obtain ⟨x, xs, hxs⟩ : ∃ x xs, utf8 l₁ ++ b :: more = x :: xs :=
    List.exists_cons_of_ne_nil (by simp)
  rw [hxs] at htake hdrop ⊢
  cases n with
  | zero => simp [start, checkMagic]
  | succ n =>
      rw [start, checkMagic_cons, htake, hdrop]
      cases readMagic (utf8 l₁) with
      | blank => simp [hbig]
      | found => simpa [hnl] using hloop
      | other => simp

end WsPi5.ConfigParser
